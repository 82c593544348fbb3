/-
  JSON values, and their text.

  The text of a string can name half of a surrogate pair on its own, which no
  character stands for; such a string has no content (`none`).  A number keeps
  the text it was written with.

  * `Json.compact` writes a value without any space.
  * `Json.pretty` writes a member or an item a line, indented by two spaces.
-/

namespace ScopedResources

/-- A JSON value. -/
inductive Json where
  | null
  | bool (value : Bool)
  /-- A number, by its text. -/
  | number (text : String)
  /-- A string; without content when it has an unpaired surrogate. -/
  | string (content : Option String)
  | array (items : List Json)
  /-- An object, its members in the order they are written. -/
  | object (members : List (Option String × Json))

namespace Json

def text (s : String) : Json :=
  .string (some s)

def nat (n : Nat) : Json :=
  .number (toString n)

def int (n : Int) : Json :=
  .number (toString n)

def record (members : List (String × Json)) : Json :=
  .object (members.map fun (key, value) => (some key, value))

/-! ## Strings -/

/-- One character of a written string: quotes, backslashes and control
    characters are escaped, nothing else is. -/
def escapeChar (c : Char) : List Char :=
  match c with
  | '"' => ['\\', '"']
  | '\\' => ['\\', '\\']
  | '\x08' => ['\\', 'b']
  | '\x0c' => ['\\', 'f']
  | '\n' => ['\\', 'n']
  | '\r' => ['\\', 'r']
  | '\t' => ['\\', 't']
  | c =>
    if c.toNat < 0x20 then
      ['\\', 'u', '0', '0', Nat.digitChar (c.toNat / 16), Nat.digitChar (c.toNat % 16)]
    else [c]

/-- A string as JSON writes it, quotes included. -/
def quote (s : String) : String :=
  String.ofList ('"' :: s.toList.flatMap escapeChar ++ ['"'])

/-- A string that may have no content; without content nothing is written. -/
def quoteContent (content : Option String) : String :=
  quote (content.getD "")

/-! ## Values -/

def joined (separator : String) : List String → String
  | [] => ""
  | first :: rest => rest.foldl (fun text s => text ++ separator ++ s) first

mutual

/-- A value on one line, without any space. -/
def compact : Json → String
  | .null => "null"
  | .bool true => "true"
  | .bool false => "false"
  | .number text => text
  | .string content => quoteContent content
  | .array items => "[" ++ joined "," (compactItems items) ++ "]"
  | .object members => "\x7b" ++ joined "," (compactMembers members) ++ "\x7d"

/-- The items of an array, each on one line. -/
def compactItems : List Json → List String
  | [] => []
  | item :: rest => compact item :: compactItems rest

/-- The members of an object, each on one line. -/
def compactMembers : List (Option String × Json) → List String
  | [] => []
  | (key, value) :: rest =>
    (quoteContent key ++ ":" ++ compact value) :: compactMembers rest

end

/-- A new line, indented by two spaces a level. -/
def newLine (level : Nat) : String :=
  "\n" ++ String.ofList (List.replicate (2 * level) ' ')

/-- Parts that stand a line each between two brackets; brackets alone when
    there is no part. -/
def block (opening closing : String) (level : Nat) (parts : List String) : String :=
  match parts with
  | [] => opening ++ closing
  | parts =>
    opening ++ newLine (level + 1) ++ joined ("," ++ newLine (level + 1)) parts ++
      newLine level ++ closing

mutual

/-- A value over several lines, at a level of indentation. -/
def prettyAt (level : Nat) : Json → String
  | .array items => block "[" "]" level (prettyItems (level + 1) items)
  | .object members => block "\x7b" "\x7d" level (prettyMembers (level + 1) members)
  | .null => "null"
  | .bool true => "true"
  | .bool false => "false"
  | .number text => text
  | .string content => quoteContent content

/-- The items of an array, each over several lines. -/
def prettyItems (level : Nat) : List Json → List String
  | [] => []
  | item :: rest => prettyAt level item :: prettyItems level rest

/-- The members of an object, each over several lines. -/
def prettyMembers (level : Nat) : List (Option String × Json) → List String
  | [] => []
  | (key, value) :: rest =>
    (quoteContent key ++ ": " ++ prettyAt level value) :: prettyMembers level rest

end

def pretty (value : Json) : String :=
  prettyAt 0 value

/-! ## Looking into values -/

/-- The members of an object; none of anything else. -/
def members : Json → List (Option String × Json)
  | .object ms => ms
  | _ => []

/-- The first member with this key. -/
def get? (value : Json) (key : String) : Option Json :=
  value.members.lookup (some key)

end Json

end ScopedResources
