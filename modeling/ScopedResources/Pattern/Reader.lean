/-
  Reading patterns.

  A pattern is a choice of branches with `|` between them, a branch a row of
  items.  An item is a character, an escape, a set in brackets or a group in
  parentheses; `?`, `*` and `+` repeat the item before them.  Counted
  repetitions, properties of characters and back references are not known, and
  where they would stand nothing else may.

  While the flag `x` is on ("spaced"), white space does not count, nor does
  what follows a `#` on its line.

  * `Pattern.read?` reads a whole text.
-/
import ScopedResources.Pattern
import ScopedResources.Text.Alphanumeric
import ScopedResources.Text.Blank

namespace ScopedResources.Pattern

/-- Reads from the start of a text; gives what it found and what is left. -/
abbrev Reader (α : Type) := List Char → Option (α × List Char)

/-! ## White space -/

/-- A text from the first character on that counts; the first argument says
    whether the text starts inside a comment. -/
def skipBlank : Bool → List Char → List Char
  | _, [] => []
  | true, c :: rest => skipBlank (c != '\n') rest
  | false, c :: rest =>
    if Text.isBlankChar c then skipBlank false rest
    else if c = '#' then skipBlank true rest
    else c :: rest

/-- A text without what does not count at its start. -/
def skip (spaced : Bool) (cs : List Char) : List Char :=
  if spaced then skipBlank false cs else cs

/-- The character that is looked at to tell a range from a hyphen.  Where white
    space does not count it is looked for behind white space and one `#`, but
    not behind the whole comment. -/
def peek (spaced : Bool) (cs : List Char) : Option Char :=
  if spaced then
    let found :=
      match cs.dropWhile Text.isBlankChar with
      | '#' :: rest => (rest.dropWhile Text.isBlankChar).head?
      | rest => rest.head?
    found <|> cs.head?
  else cs.head?

/-! ## Escapes -/

/-- The value of a digit in base 16. -/
def hexadecimalDigit? (c : Char) : Option Nat :=
  if c.isDigit then some (c.toNat - 0x30)
  else if 'a' ≤ c ∧ c ≤ 'f' then some (c.toNat - 0x57)
  else if 'A' ≤ c ∧ c ≤ 'F' then some (c.toNat - 0x37)
  else none

/-- A number of digits in base 16; `value` is that of the digits before them. -/
def readHexadecimal (spaced : Bool) : Nat → Nat → Reader Nat
  | 0, value, cs => some (value, cs)
  | _ + 1, _, [] => none
  | count + 1, value, c :: rest => do
    let digit ← hexadecimalDigit? c
    readHexadecimal spaced count (value * 16 + digit) (skip spaced rest)

def readNumbered (spaced isOctet : Bool) (count : Nat) : Reader Leaf := fun cs => do
  let (n, rest) ← readHexadecimal spaced count 0 (skip spaced cs)
  if n.isValidChar then
    return (.literal ⟨Char.ofNat n, isOctet⟩, rest)
  else none

/-- The letters that stand for a control character after a backslash. -/
def controlLetters : List (Char × Char) :=
  [('a', '\x07'), ('f', '\x0c'), ('t', '\t'), ('n', '\n'), ('r', '\r'), ('v', '\x0b')]

/-- An escape, after its backslash. -/
def readEscape (spaced : Bool) : Reader Leaf
  | [] => none
  | c :: rest =>
    if c = 'x' then readNumbered spaced true 2 rest
    else if c = 'u' then readNumbered spaced false 4 rest
    else if c = 'U' then readNumbered spaced false 8 rest
    else if c = 'd' ∨ c = 's' ∨ c = 'w' then some (.shorthand false, rest)
    else if c = 'D' ∨ c = 'S' ∨ c = 'W' then some (.shorthand true, rest)
    else if c = 'A' ∨ c = 'z' then some (.assertion false, rest)
    else if c = 'b' ∨ c = 'B' ∨ c = '<' ∨ c = '>' then some (.assertion true, rest)
    else
      match controlLetters.lookup c with
      | some control => some (.literal ⟨control, false⟩, rest)
      | none =>
        if c.toNat < 0x80 ∧ !c.isAlphanum then some (.literal ⟨c, false⟩, rest) else none

/-! ## Sets -/

def setNames : List String :=
  ["alnum", "alpha", "ascii", "blank", "cntrl", "digit", "graph", "lower", "print", "punct",
    "space", "upper", "word", "xdigit"]

/-- A set with a name, as `[:alpha:]` or `[:^alpha:]`, after its bracket. -/
def readNamedSet : Reader CharacterSet
  | ':' :: cs =>
    let (negated, cs) :=
      match cs with
      | '^' :: rest => (true, rest)
      | _ => (false, cs)
    match cs.dropWhile (· != ':') with
    | ':' :: ']' :: rest =>
      if setNames.contains (String.ofList (cs.takeWhile (· != ':'))) then
        some (.named negated, rest)
      else none
    | _ => none
  | _ => none

/-- One character of a set, or an escape. -/
def readSetLeaf (spaced : Bool) : Reader Leaf
  | [] => none
  | '\\' :: rest => readEscape spaced rest
  | c :: rest => some (.literal ⟨c, false⟩, rest)

/-- A leaf as a set. -/
def setOfLeaf? : Leaf → Option CharacterSet
  | .literal l => some (.literal l)
  | .shorthand negated => some (.shorthand negated)
  | .anyCharacter | .assertion _ => none

/-- A range, the first character of which may not come after the last. -/
def range? : Leaf → Leaf → Option CharacterSet
  | .literal first, .literal last =>
    if first.char.toNat ≤ last.char.toNat then some (.range first last) else none
  | _, _ => none

/-- A range, or a single character of a set. -/
def readSetItem (spaced : Bool) : Reader CharacterSet := fun cs => do
  let (first, rest) ← readSetLeaf spaced cs
  let single := do return (← setOfLeaf? first, skip spaced rest)
  match skip spaced rest with
  | [] => none
  | '-' :: after =>
    if peek spaced after = some ']' ∨ peek spaced after = some '-' then single
    else
      let (last, rest) ← readSetLeaf spaced (skip spaced after)
      return (← range? first last, rest)
  | _ => single

/-- The hyphens at the start of a set, which stand for themselves. -/
def readHyphens (spaced : Bool) : Nat → List CharacterSet → Reader (List CharacterSet)
  | fuel + 1, parts, '-' :: rest =>
    readHyphens spaced fuel (.literal ⟨'-', false⟩ :: parts) (skip spaced rest)
  | _, parts, cs => some (parts, cs)

/-- The start of a set, after its bracket: whether it is negated, and what is
    certain to stand for itself. -/
def readSetStart (spaced : Bool) : Reader (Bool × List CharacterSet) := fun cs => do
  let cs := skip spaced cs
  let (negated, cs) :=
    match cs with
    | '^' :: rest => (true, skip spaced rest)
    | _ => (false, cs)
  let (parts, cs) ← readHyphens spaced cs.length [] cs
  match parts, cs with
  | [], ']' :: rest => return ((negated, [.literal ⟨']', false⟩]), skip spaced rest)
  | parts, cs => return ((negated, parts), cs)

/-- The union of some sets, the last one first. -/
def unionOf : List CharacterSet → CharacterSet
  | [] => .empty
  | [part] => part
  | parts => .union parts.reverse

/-- A set together with what an operation before it combines it with. -/
def combine (before : Option (SetOperation × CharacterSet)) (s : CharacterSet) : CharacterSet :=
  match before with
  | some (op, left) => .combination op left s
  | none => s

/-- A set up to its closing bracket; `parts` are those read so far, the last
    one first, and `before` is what stands before the last operation. -/
def readSet (spaced : Bool) : Nat → List CharacterSet → Option (SetOperation × CharacterSet) →
    Reader CharacterSet
  | 0, _, _, _ => none
  | fuel + 1, parts, before, cs =>
    match skip spaced cs with
    | [] => none
    | '[' :: rest =>
      match readNamedSet rest with
      | some (s, rest) => readSet spaced fuel (s :: parts) before rest
      | none => do
        let ((negated, inner), rest) ← readSetStart spaced rest
        let (inner, rest) ← readSet spaced fuel inner none rest
        readSet spaced fuel (.bracketed negated inner :: parts) before rest
    | ']' :: rest => some (combine before (unionOf parts), rest)
    | '&' :: '&' :: rest =>
      readSet spaced fuel [] (some (.intersection, combine before (unionOf parts))) rest
    | '-' :: '-' :: rest =>
      readSet spaced fuel [] (some (.difference, combine before (unionOf parts))) rest
    | '~' :: '~' :: rest =>
      readSet spaced fuel [] (some (.symmetricDifference, combine before (unionOf parts))) rest
    | cs => do
      let (part, rest) ← readSetItem spaced cs
      readSet spaced fuel (part :: parts) before rest

/-! ## Groups -/

/-- Whether a character may stand in the name of a group. -/
def isNameChar (c : Char) : Bool :=
  c == '_' || c == '.' || c == '[' || c == ']' || Text.isAlphanumeric c

def isGroupName : List Char → Bool
  | [] => false
  | first :: rest => (first == '_' || Text.isAlphabetic first) && rest.all isNameChar

def flagLetters : List Char := ['i', 's', 'm', 'U', 'u', 'R', 'x']

/-- What flags say about one of them: those after the hyphen are turned off. -/
def setting (letters : List Char) (flag : Char) : Option Bool :=
  if letters.contains flag then some ((letters.takeWhile (· != '-')).contains flag) else none

/-- Flags, as `i-x`: no letter and no hyphen stands there twice, and the hyphen
    does not come last. -/
def flagChange? (letters : List Char) : Option FlagChange :=
  if letters.all (fun c => c == '-' || flagLetters.contains c) ∧ letters.Nodup ∧
      letters.getLast? ≠ some '-' then
    some ⟨setting letters 'i', setting letters 'u', setting letters 'x'⟩
  else none

/-- What a parenthesis opens. -/
inductive Opening where
  /-- Flags for the rest of the group. -/
  | flags (change : FlagChange)
  | group (name : Option (List Char)) (change : FlagChange)
  deriving DecidableEq, Repr

/-- The name of a group, up to the `>` after it. -/
def readGroupName : Reader Opening := fun cs =>
  let name := cs.takeWhile (· != '>')
  match cs.dropWhile (· != '>') with
  | [] => none
  | _ :: rest => if isGroupName name then some (.group (some name) .none, rest) else none

/-- Flags, up to the colon or parenthesis after them. -/
def readFlags : Reader Opening := fun cs =>
  let letters := cs.takeWhile fun c => c != ':' && c != ')'
  match cs.dropWhile fun c => c != ':' && c != ')' with
  | [] => none
  | c :: rest => do
    let change ← flagChange? letters
    if c = ':' then return (.group none change, rest)
    else if letters = [] then none
    else return (.flags change, rest)

/-- The start of a group, after its parenthesis.  Conditions on what comes
    before or after are not known. -/
def readOpening : Reader Opening
  | '?' :: '=' :: _ | '?' :: '!' :: _ | '?' :: '<' :: '=' :: _ | '?' :: '<' :: '!' :: _ => none
  | '?' :: 'P' :: '<' :: rest => readGroupName rest
  | '?' :: '<' :: rest => readGroupName rest
  | '?' :: rest => readFlags rest
  | cs => some (.group none .none, cs)

/-! ## Patterns -/

/-- A row of items, the last one first. -/
def sequenceOf : List Pattern → Pattern
  | [] => .empty
  | [item] => item
  | items => .sequence items.reverse

/-- A choice; `branches` are all but the last one, the last of them first. -/
def choiceOf (branches : List Pattern) (last : Pattern) : Pattern :=
  match branches with
  | [] => last
  | branches => .choice (last :: branches).reverse

/-- The last item repeated; there has to be one, and flags cannot be. -/
def repeatLast? : List Pattern → Option (List Pattern)
  | [] | .flags _ :: _ => none
  | item :: items => some (.repetition item :: items)

/-- A text without the `?` that makes a repetition as short as possible. -/
def dropLazy : List Char → List Char
  | '?' :: rest => rest
  | cs => cs

def readLeaf (spaced : Bool) : Reader Leaf
  | [] => none
  | '\\' :: rest => readEscape spaced rest
  | '.' :: rest => some (.anyCharacter, rest)
  | '^' :: rest | '$' :: rest => some (.assertion false, rest)
  | c :: rest => some (.literal ⟨c, false⟩, rest)

/-- What stands in a group, up to its closing parenthesis or the end of the
    text.  `branches` are those read so far and `items` the items of the next
    one, the last one first. -/
def readBody : Nat → Bool → List Pattern → List Pattern → Reader Pattern
  | 0, _, _, _, _ => none
  | fuel + 1, spaced, branches, items, cs =>
    match skip spaced cs with
    | [] => some (choiceOf branches (sequenceOf items), [])
    | ')' :: rest => some (choiceOf branches (sequenceOf items), ')' :: rest)
    | '|' :: rest => readBody fuel spaced (sequenceOf items :: branches) [] rest
    | '(' :: rest => do
      match ← readOpening (skip spaced rest) with
      | (.flags change, rest) =>
        readBody fuel (change.spaced.getD spaced) branches (.flags change :: items) rest
      | (.group name change, rest) =>
        let (inner, rest) ← readBody fuel (change.spaced.getD spaced) [] [] rest
        match rest with
        | ')' :: rest => readBody fuel spaced branches (.group name change inner :: items) rest
        | _ => none
    | '[' :: rest => do
      let ((negated, parts), rest) ← readSetStart spaced rest
      let (s, rest) ← readSet spaced fuel parts none rest
      readBody fuel spaced branches (.set negated s :: items) rest
    | '?' :: rest | '*' :: rest | '+' :: rest => do
      let items ← repeatLast? items
      readBody fuel spaced branches items (dropLazy rest)
    | '\x7b' :: _ => none
    | cs => do
      let (item, rest) ← readLeaf spaced cs
      readBody fuel spaced branches (.leaf item :: items) rest

def read? (cs : List Char) : Option Pattern :=
  match readBody (cs.length + 1) false [] [] cs with
  | some (pattern, []) => some pattern
  | _ => none

end ScopedResources.Pattern
