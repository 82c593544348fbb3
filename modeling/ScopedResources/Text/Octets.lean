/-
  Positions in a text that count the octets of its encoding.

  A position inside of a character is no place to cut a text at.

  * `dropOctets?`, `takeOctets?` and `slice?` cut a text at such positions.
-/

namespace ScopedResources.Text

def dropOctets? : Nat → List Char → Option (List Char)
  | 0, cs => some cs
  | _ + 1, [] => none
  | position + 1, c :: rest =>
    if c.utf8Size ≤ position + 1 then dropOctets? (position + 1 - c.utf8Size) rest else none

def takeOctets? : Nat → List Char → Option (List Char)
  | 0, _ => some []
  | _ + 1, [] => none
  | position + 1, c :: rest =>
    if c.utf8Size ≤ position + 1 then do
      return c :: (← takeOctets? (position + 1 - c.utf8Size) rest)
    else none

def slice? (first last : Nat) (cs : List Char) : Option (List Char) := do
  dropOctets? first (← takeOctets? last cs)

end ScopedResources.Text
