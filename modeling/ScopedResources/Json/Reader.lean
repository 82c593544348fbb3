/-
  Reading JSON text.

  Readers take what is left of the text and return what they leave.  A fault
  keeps its cause and what was left when it was met, from which its line and
  column follow (`Fault.position`).

  * `Json.read` reads a text that holds one value and nothing else.
  * `Json.Fault.message` words a fault, with the place where it was met.

  Escapes of surrogates are paired after the string has been read, so a string
  with an unpaired one is read and has no content.
-/
import ScopedResources.Json
import ScopedResources.Text.Utf8

namespace ScopedResources.Json

/-! ## Faults -/

/-- Why a text is no JSON value. -/
inductive Cause where
  | eofValue
  | eofObject
  | eofList
  | eofString
  | expectedIdent
  | expectedValue
  | expectedColon
  | expectedListCommaOrEnd
  | expectedObjectCommaOrEnd
  | trailingComma
  | trailingCharacters
  | keyNotString
  | invalidEscape
  | invalidNumber
  | controlCharacter
  deriving DecidableEq, Repr

def Cause.description : Cause → String
  | eofValue => "EOF while parsing a value"
  | eofObject => "EOF while parsing an object"
  | eofList => "EOF while parsing a list"
  | eofString => "EOF while parsing a string"
  | expectedIdent => "expected ident"
  | expectedValue => "expected value"
  | expectedColon => "expected `:`"
  | expectedListCommaOrEnd => "expected `,` or `]`"
  | expectedObjectCommaOrEnd => "expected `,` or `\x7d`"
  | trailingComma => "trailing comma"
  | trailingCharacters => "trailing characters"
  | keyNotString => "key must be a string"
  | invalidEscape => "invalid escape"
  | invalidNumber => "invalid number"
  | controlCharacter => "control character (\\u0000-\\u001F) found while parsing a string"

/-- A cause, and what was left of the text after the character that gave it. -/
structure Fault where
  cause : Cause
  left : List Char
  deriving DecidableEq, Repr

/-- A reader takes what is left of the text; it returns a result and what it leaves. -/
abbrev Reader (α : Type) := List Char → Except Fault (α × List Char)

/-- A fault at the next character, or at the end of the text with another cause. -/
def faultAt (cause atEnd : Cause) : List Char → Fault
  | [] => ⟨atEnd, []⟩
  | _ :: rest => ⟨cause, rest⟩

def octets (cs : List Char) : Nat :=
  (cs.flatMap Utf8.encodeChar).length

/-- The line and column of a fault in a text: lines count from 1, columns are
    octets of the line read so far. -/
def Fault.position (fault : Fault) (text : List Char) : Nat × Nat :=
  let consumed := text.take (text.length - fault.left.length)
  (consumed.count '\n' + 1, octets (consumed.reverse.takeWhile (· != '\n')))

def Fault.message (fault : Fault) (text : String) : String :=
  let (line, column) := fault.position text.toList
  fault.cause.description ++ " at line " ++ toString line ++ " column " ++ toString column

/-! ## Characters -/

def isSpace (c : Char) : Bool :=
  c == ' ' || c == '\n' || c == '\t' || c == '\r'

/-- What is left after the spaces. -/
def skipSpace (cs : List Char) : List Char :=
  cs.dropWhile isSpace

/-- The value of a digit in base 16, of either case. -/
def hexDigit? (c : Char) : Option Nat :=
  if '0' ≤ c ∧ c ≤ '9' then some (c.toNat - 0x30)
  else if 'a' ≤ c ∧ c ≤ 'f' then some (c.toNat - 0x61 + 10)
  else if 'A' ≤ c ∧ c ≤ 'F' then some (c.toNat - 0x41 + 10)
  else none

/-- The value of four digits in base 16. -/
def hexUnit? (a b c d : Char) : Option Nat := do
  let a ← hexDigit? a
  let b ← hexDigit? b
  let c ← hexDigit? c
  let d ← hexDigit? d
  return ((a * 16 + b) * 16 + c) * 16 + d

/-- The character that a backslash and a letter stand for. -/
def shortEscape? (c : Char) : Option Char :=
  match c with
  | '"' => some '"'
  | '\\' => some '\\'
  | '/' => some '/'
  | 'b' => some '\x08'
  | 'f' => some '\x0c'
  | 'n' => some '\n'
  | 'r' => some '\r'
  | 't' => some '\t'
  | _ => none

/-! ## Strings -/

/-- A part of a string: a character, or a 16-bit unit given by its number. -/
inductive Part where
  | char (c : Char)
  | unit (n : Nat)
  deriving DecidableEq, Repr

/-- The parts of a string up to its closing quote; `parts` are those read so
    far, the last one first. -/
def readParts (parts : List Part) : Reader (List Part)
  | [] => .error ⟨.eofString, []⟩
  | '"' :: rest => .ok (parts.reverse, rest)
  | '\\' :: 'u' :: a :: b :: c :: d :: rest =>
    match hexUnit? a b c d with
    | some n => readParts (.unit n :: parts) rest
    | none => .error ⟨.invalidEscape, rest⟩
  | '\\' :: c :: rest =>
    match shortEscape? c with
    | some e => readParts (.char e :: parts) rest
    | none => if c = 'u' then .error ⟨.eofString, []⟩ else .error ⟨.invalidEscape, rest⟩
  | c :: rest =>
    if c = '\\' then .error ⟨.eofString, []⟩
    else if c.toNat < 0x20 then .error ⟨.controlCharacter, rest⟩
    else readParts (.char c :: parts) rest

/-- Whether a unit is the first half of a surrogate pair. -/
def isHighSurrogate (n : Nat) : Bool := 0xD800 ≤ n && n ≤ 0xDBFF

/-- Whether a unit is the second half of a surrogate pair. -/
def isLowSurrogate (n : Nat) : Bool := 0xDC00 ≤ n && n ≤ 0xDFFF

/-- The characters that parts stand for: two halves in a row make one
    character, a half on its own makes none. -/
def pairParts : List Part → List (Option Char)
  | [] => []
  | .char c :: rest => some c :: pairParts rest
  | .unit high :: .unit low :: rest =>
    if isHighSurrogate high && isLowSurrogate low then
      some (Char.ofNat (0x10000 + (high - 0xD800) * 0x400 + (low - 0xDC00))) :: pairParts rest
    else if isHighSurrogate high || isLowSurrogate high then
      none :: pairParts (.unit low :: rest)
    else some (Char.ofNat high) :: pairParts (.unit low :: rest)
  | .unit n :: rest =>
    (if isHighSurrogate n || isLowSurrogate n then none else some (Char.ofNat n)) ::
      pairParts rest

def contentOfParts (parts : List Part) : Option String :=
  ((pairParts parts).mapM id).map String.ofList

/-- A string, after its opening quote. -/
def readString : Reader (Option String) := fun cs => do
  let (parts, rest) ← readParts [] cs
  return (contentOfParts parts, rest)

/-! ## Numbers and words -/

def readDigits : Reader (List Char) := fun cs =>
  match cs.takeWhile Char.isDigit with
  | [] => .error (faultAt .invalidNumber .eofValue cs)
  | digits => .ok (digits, cs.dropWhile Char.isDigit)

/-- The digits before the point: a zero stands alone. -/
def readWhole : Reader (List Char)
  | '0' :: rest =>
    match rest with
    | c :: left => if c.isDigit then .error ⟨.invalidNumber, left⟩ else .ok (['0'], rest)
    | [] => .ok (['0'], [])
  | cs => readDigits cs

/-- The point and the digits after it, if there is a point. -/
def readFraction : Reader (List Char)
  | '.' :: rest => do
    let (digits, rest) ← readDigits rest
    return ('.' :: digits, rest)
  | cs => .ok ([], cs)

/-- The exponent, if there is one. -/
def readExponent : Reader (List Char)
  | [] => .ok ([], [])
  | e :: rest =>
    if e = 'e' ∨ e = 'E' then
      match rest with
      | sign :: rest' =>
        if sign = '+' ∨ sign = '-' then do
          let (digits, rest) ← readDigits rest'
          return (e :: sign :: digits, rest)
        else do
          let (digits, rest) ← readDigits rest
          return (e :: digits, rest)
      | [] => .error ⟨.eofValue, []⟩
    else .ok ([], e :: rest)

/-- A number without its sign. -/
def readMagnitude : Reader (List Char) := fun cs => do
  let (whole, cs) ← readWhole cs
  let (fraction, cs) ← readFraction cs
  let (exponent, cs) ← readExponent cs
  return (whole ++ fraction ++ exponent, cs)

def readWord : List Char → Reader Unit
  | [], cs => .ok ((), cs)
  | _ :: _, [] => .error ⟨.eofValue, []⟩
  | w :: word, c :: cs =>
    if w = c then readWord word cs else .error ⟨.expectedIdent, cs⟩

/-! ## Values -/

mutual

/-- A value; the first argument bounds how many values, items and members are
    read. -/
def readValue : Nat → Reader Json
  | 0, cs => .error (faultAt .expectedValue .eofValue cs)
  | fuel + 1, cs =>
    match skipSpace cs with
    | [] => .error ⟨.eofValue, []⟩
    | '"' :: rest => do
      let (content, rest) ← readString rest
      return (.string content, rest)
    | '[' :: rest =>
      match skipSpace rest with
      | [] => .error ⟨.eofList, []⟩
      | ']' :: rest => .ok (.array [], rest)
      | rest => readItems fuel [] rest
    | '\x7b' :: rest =>
      match skipSpace rest with
      | [] => .error ⟨.eofObject, []⟩
      | '\x7d' :: rest => .ok (.object [], rest)
      | '"' :: rest => readMembers fuel [] rest
      | _ :: rest => .error ⟨.keyNotString, rest⟩
    | 'n' :: rest => do
      let ((), rest) ← readWord ['u', 'l', 'l'] rest
      return (.null, rest)
    | 't' :: rest => do
      let ((), rest) ← readWord ['r', 'u', 'e'] rest
      return (.bool true, rest)
    | 'f' :: rest => do
      let ((), rest) ← readWord ['a', 'l', 's', 'e'] rest
      return (.bool false, rest)
    | '-' :: rest => do
      let (digits, rest) ← readMagnitude rest
      return (.number (String.ofList ('-' :: digits)), rest)
    | c :: rest =>
      if c.isDigit then do
        let (digits, rest) ← readMagnitude (c :: rest)
        return (.number (String.ofList digits), rest)
      else .error ⟨.expectedValue, rest⟩

/-- The items of an array from the next one on; `items` are those read so far,
    the last one first. -/
def readItems : Nat → List Json → Reader Json
  | 0, _, cs => .error (faultAt .expectedValue .eofValue cs)
  | fuel + 1, items, cs => do
    let (item, rest) ← readValue fuel cs
    match skipSpace rest with
    | [] => .error ⟨.eofList, []⟩
    | ']' :: rest => .ok (.array (item :: items).reverse, rest)
    | ',' :: rest =>
      match skipSpace rest with
      | ']' :: rest => .error ⟨.trailingComma, rest⟩
      | rest => readItems fuel (item :: items) rest
    | _ :: rest => .error ⟨.expectedListCommaOrEnd, rest⟩

/-- The members of an object from inside the next key on; `members` are those
    read so far, the last one first. -/
def readMembers : Nat → List (Option String × Json) → Reader Json
  | 0, _, cs => .error (faultAt .expectedValue .eofValue cs)
  | fuel + 1, members, cs => do
    let (key, rest) ← readString cs
    match skipSpace rest with
    | ':' :: rest =>
      let (value, rest) ← readValue fuel rest
      match skipSpace rest with
      | [] => .error ⟨.eofObject, []⟩
      | '\x7d' :: rest => .ok (.object ((key, value) :: members).reverse, rest)
      | ',' :: rest =>
        match skipSpace rest with
        | '"' :: rest => readMembers fuel ((key, value) :: members) rest
        | '\x7d' :: rest => .error ⟨.trailingComma, rest⟩
        | [] => .error ⟨.eofValue, []⟩
        | _ :: rest => .error ⟨.keyNotString, rest⟩
      | _ :: rest => .error ⟨.expectedObjectCommaOrEnd, rest⟩
    | rest => .error (faultAt .expectedColon .eofObject rest)

end

/-- The value that a text holds, with nothing but spaces around it. -/
def read (text : String) : Except Fault Json := do
  let cs := text.toList
  let (value, rest) ← readValue (cs.length + 1) cs
  match skipSpace rest with
  | [] => .ok value
  | _ :: rest => .error ⟨.trailingCharacters, rest⟩

end ScopedResources.Json
