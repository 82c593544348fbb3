/-
  Which patterns are accepted.

  A pattern is accepted if it is not nested too far, gives no name to two
  groups, and asks for nothing that is not supported.  What is supported depends
  on the flags.

  * With `u`, a pattern is about characters, and there are no tables of them:
    no pairs of small and capital letters, no digits, spaces or words.
  * Without `u`, it is about octets, but may still match nothing but text: no
    octets outside of ASCII, not just any octet, and none of those that are not
    in some set.

  `Pattern.isAccepted` puts this together.
-/
import ScopedResources.Pattern

namespace ScopedResources.Pattern

/-! ## Flags -/

/-- The flags in force at a place of a pattern. -/
structure Flags where
  caseless : Bool
  unicode : Bool
  deriving DecidableEq, Repr

def Flags.initial : Flags := ⟨false, true⟩

/-- Flags after a change. -/
def Flags.apply (flags : Flags) (change : FlagChange) : Flags :=
  ⟨change.caseless.getD flags.caseless, change.unicode.getD flags.unicode⟩

/-! ## Leaves -/

def Literal.isAscii (l : Literal) : Bool :=
  l.char.toNat < 0x80

/-- Whether a leaf is supported. -/
def Leaf.isSupported (flags : Flags) : Leaf → Bool
  | .literal l => if flags.unicode then !flags.caseless else !l.isOctet || l.isAscii
  | .anyCharacter => flags.unicode
  | .assertion isWord => !isWord || !flags.unicode
  | .shorthand negated => !flags.unicode && !negated

/-! ## Sets -/

mutual

/-- Whether what stands in a set is supported. -/
def CharacterSet.isSupported (flags : Flags) : CharacterSet → Bool
  | .empty => true
  | .literal l => if flags.unicode then !flags.caseless else l.isAscii
  | .range first last =>
    if flags.unicode then !flags.caseless else first.isAscii && last.isAscii
  | .named negated => if flags.unicode then !flags.caseless else !negated
  | .shorthand negated => !flags.unicode && !negated
  | .bracketed negated inner => inner.isSupported flags && (flags.unicode || !negated)
  | .union parts => allSetsSupported flags parts
  | .combination _ left right => left.isSupported flags && right.isSupported flags

/-- Whether all of some sets are supported. -/
def allSetsSupported (flags : Flags) : List CharacterSet → Bool
  | [] => true
  | part :: parts => part.isSupported flags && allSetsSupported flags parts

end

/-! ## Patterns -/

mutual

/-- The flags after a pattern, given those before it; none if something in it is
    not supported. -/
def flagsAfter? (flags : Flags) : Pattern → Option Flags
  | .empty => some flags
  | .leaf l => if l.isSupported flags then some flags else none
  | .set negated s =>
    if (CharacterSet.bracketed negated s).isSupported flags then some flags else none
  | .flags change => some (flags.apply change)
  | .repetition inner => inner.flagsAfter? flags
  | .group _ change inner => do
    let _ ← inner.flagsAfter? (flags.apply change)
    return flags
  | .sequence parts | .choice parts => flagsAfterAll? flags parts

/-- The flags after some patterns, one after the other. -/
def flagsAfterAll? (flags : Flags) : List Pattern → Option Flags
  | [] => some flags
  | part :: parts => do
    let flags ← part.flagsAfter? flags
    flagsAfterAll? flags parts

end

/-- How far a pattern may be nested. -/
def depthLimit : Nat := 250

def isAccepted (p : Pattern) : Bool :=
  p.depth ≤ depthLimit && p.groupNames.Nodup && (p.flagsAfter? .initial).isSome

end ScopedResources.Pattern
