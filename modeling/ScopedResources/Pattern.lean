/-
  Patterns for the values of fields: the shape of a regular expression.

  A pattern is kept as far as its being accepted depends on it: not what it
  matches, but what it consists of.

  * `Pattern.depth` counts how far its parts are nested, `Pattern.groupNames`
    are the names that it gives to groups.
-/

namespace ScopedResources

namespace Pattern

/-- A character that stands for itself; `isOctet` when it is written with two
    digits, as `\x7F`. -/
structure Literal where
  char : Char
  isOctet : Bool
  deriving DecidableEq, Repr

/-- A part of a pattern without parts of its own. -/
inductive Leaf where
  | literal (l : Literal)
  /-- Any character, or any but the end of a line. -/
  | anyCharacter
  /-- A condition on the place, `isWord` when it is about the ends of words. -/
  | assertion (isWord : Bool)
  /-- The digits, the spaces or the characters of words; `negated` for all others. -/
  | shorthand (negated : Bool)
  deriving DecidableEq, Repr

/-- How two sets of characters are combined. -/
inductive SetOperation where
  | intersection
  | difference
  | symmetricDifference
  deriving DecidableEq, Repr

/-- What stands between brackets. -/
inductive CharacterSet where
  | empty
  | literal (l : Literal)
  | range (first last : Literal)
  /-- A set of ASCII characters with a name; `negated` for all characters that
      are not in it. -/
  | named (negated : Bool)
  | shorthand (negated : Bool)
  | bracketed (negated : Bool) (inner : CharacterSet)
  | union (parts : List CharacterSet)
  | combination (op : SetOperation) (left right : CharacterSet)

/-- What a list of flags sets: `some true` turns on, `some false` turns off. -/
structure FlagChange where
  caseless : Option Bool
  unicode : Option Bool
  /-- Whether white space and comments do not count. -/
  spaced : Option Bool
  deriving DecidableEq, Repr

/-- A list of flags that changes nothing. -/
def FlagChange.none : FlagChange :=
  ⟨Option.none, Option.none, Option.none⟩

end Pattern

/-- A pattern. -/
inductive Pattern where
  | empty
  | leaf (l : Pattern.Leaf)
  /-- One character out of a set, or none of them. -/
  | set (negated : Bool) (s : Pattern.CharacterSet)
  /-- Flags for what follows in the group. -/
  | flags (change : Pattern.FlagChange)
  | repetition (inner : Pattern)
  /-- A group, which may have a name and flags of its own. -/
  | group (name : Option (List Char)) (change : Pattern.FlagChange) (inner : Pattern)
  | sequence (parts : List Pattern)
  | choice (branches : List Pattern)

namespace Pattern

/-! ## Nesting -/

mutual

/-- How far a set is nested. -/
def CharacterSet.depth : CharacterSet → Nat
  | .empty | .literal _ | .range _ _ | .named _ | .shorthand _ => 0
  | .bracketed _ inner => inner.depth + 1
  | .union parts => depthOfSets parts + 1
  | .combination _ left right => max left.depth right.depth + 1

/-- How far some sets are nested at most. -/
def depthOfSets : List CharacterSet → Nat
  | [] => 0
  | part :: parts => max part.depth (depthOfSets parts)

end

mutual

/-- How far a pattern is nested. -/
def depth : Pattern → Nat
  | .empty | .leaf _ | .flags _ => 0
  | .set _ s => s.depth + 1
  | .repetition inner | .group _ _ inner => inner.depth + 1
  | .sequence parts | .choice parts => depthOfAll parts + 1

/-- How far some patterns are nested at most. -/
def depthOfAll : List Pattern → Nat
  | [] => 0
  | part :: parts => max part.depth (depthOfAll parts)

end

/-! ## Names of groups -/

mutual

def groupNames : Pattern → List (List Char)
  | .empty | .leaf _ | .set _ _ | .flags _ => []
  | .repetition inner => inner.groupNames
  | .group name _ inner => name.toList ++ inner.groupNames
  | .sequence parts | .choice parts => groupNamesOfAll parts

def groupNamesOfAll : List Pattern → List (List Char)
  | [] => []
  | part :: parts => part.groupNames ++ groupNamesOfAll parts

end

end Pattern

end ScopedResources
