/-
  Directives of a log filter.

  A directive has the form `target[span{field=value}]=level`, of which every
  part may be missing; a lone word is a level if it is one, else a target.
  Without a level a directive takes every event.  The value of a field is a
  decimal number or a pattern.

  * `Directive.read?` reads a directive; it refuses ill-formed ones.
-/
import ScopedResources.Pattern.Reader
import ScopedResources.Pattern.Accepted
import ScopedResources.Text.Decimal
import ScopedResources.Text.Octets

namespace ScopedResources.LogFilter

/-! ## Levels -/

/-- The number that a text of digits stands for, with or without a plus sign. -/
def number? (cs : List Char) : Option Nat :=
  let digits := if cs.head? = some '+' then cs.tail else cs
  if digits ≠ [] ∧ digits.all Char.isDigit then
    some (digits.foldl (fun n c => n * 10 + (c.toNat - 0x30)) 0)
  else none

/-- The greatest rank that a word lets through: `0` for none, `5` for all. -/
def threshold? (cs : List Char) : Option Nat :=
  match number? cs with
  | some n => if n ≤ 5 then some n else none
  | none =>
    match (String.ofList cs).toLower with
    | "" => some 1
    | "off" => some 0
    | "error" => some 1
    | "warn" => some 2
    | "info" => some 3
    | "debug" => some 4
    | "trace" => some 5
    | _ => none

/-! ## Fields -/

/-- A field that a directive asks for, and the text of the value that it asks
    for, if it does. -/
structure Field where
  name : String
  value : Option String
  deriving DecidableEq, Repr

/-- Whether a text may be asked for as the value of a field. -/
def isValue (cs : List Char) : Bool :=
  Text.isDecimal cs || (Pattern.read? cs).any (·.isAccepted)

/-- The field that a text asks for.  The value stands between the first equals
    sign and the second. -/
def Field.read? (cs : List Char) : Option Field :=
  let name := String.ofList (cs.takeWhile (· != '='))
  match cs.dropWhile (· != '=') with
  | [] => if cs = [] then none else some ⟨name, none⟩
  | _ :: rest =>
    let value := rest.takeWhile (· != '=')
    if isValue value then some ⟨name, some (String.ofList value)⟩ else none

/-! ## Directives -/

/-- A directive. -/
structure Directive where
  target : Option String
  span : Option String
  fields : List Field
  /-- The greatest rank of the events it takes. -/
  threshold : Nat
  deriving DecidableEq, Repr

namespace Directive

/-- Where a reader of directives stands; the numbers are positions in the text. -/
inductive Reading where
  | start
  | levelOrTarget (first : Nat)
  | span (first : Nat)
  | field (first : Nat)
  | fields
  | target
  | level (first : Nat)
  deriving DecidableEq, Repr

def mayStart (c : Char) : Bool :=
  c == '-' || c == ':' || c == '_' || Text.isAlphanumeric c

/-- What one character leads to; `cs` is the text that positions refer to. -/
def step (cs : List Char) (state : Reading) (found : Directive) (position : Nat) (c : Char) :
    Option (Reading × Directive) :=
  match state with
  | .start =>
    if c = '[' then some (.span (position + 1), found)
    else if mayStart c then some (.levelOrTarget position, found)
    else none
  | .levelOrTarget first =>
    if c = '=' then do
      let target := some (String.ofList (← Text.slice? first position cs))
      return (.level (position + 1), { found with target })
    else if c = '[' then do
      let target := some (String.ofList (← Text.slice? first position cs))
      return (.span (position + 1), { found with target })
    else some (state, found)
  | .span first =>
    if c = ']' then do
      let span := some (String.ofList (← Text.slice? first position cs))
      return (.target, { found with span })
    else if c = '\x7b' then do
      let name ← Text.slice? first position cs
      let span := if name = [] then none else some (String.ofList name)
      return (.field (position + 1), { found with span })
    else some (state, found)
  | .field first =>
    if c = '\x7d' then do
      let field ← Field.read? (← Text.slice? first position cs)
      return (.fields, { found with fields := found.fields ++ [field] })
    else some (state, found)
  | .fields => if c = ']' then some (.target, found) else none
  | .target => if c = '=' then some (.level (position + 1), found) else none
  | .level _ => some (state, found)

/-- What a text leads to, from a position on. -/
def steps (cs : List Char) (state : Reading) (found : Directive) (position : Nat) :
    List Char → Option (Reading × Directive)
  | [] => some (state, found)
  | c :: rest => do
    let (state, found) ← step cs state found position c
    steps cs state found (position + c.utf8Size) rest

def finish (cs : List Char) (state : Reading) (found : Directive) : Option Directive :=
  match state with
  | .levelOrTarget first => do
    let word ← Text.dropOctets? first cs
    match threshold? word with
    | some threshold => return { found with threshold, target := none }
    | none => return { found with target := some (String.ofList word) }
  | .level first => do
    let word ← Text.dropOctets? first cs
    if word = [] then return found
    return { found with threshold := ← threshold? word }
  | .target => some found
  | .start | .span _ | .field _ | .fields => none

/-- A text without the white space at its ends. -/
def trim (cs : List Char) : List Char :=
  ((cs.dropWhile Text.isBlankChar).reverse.dropWhile Text.isBlankChar).reverse

/-- The directive that a text holds.  The white space around it does not count,
    but positions are kept as if it were not there. -/
def read? (cs : List Char) : Option Directive := do
  let (state, found) ← steps cs .start ⟨none, none, [], 5⟩ 0 (trim cs)
  finish cs state found

end Directive

end ScopedResources.LogFilter
