/-
  Byte strings: file contents, paths, and what is written to a stream.

  A byte string is a list of octets.  `totalLength` is the length of several
  byte strings handed over in one go (a scatter/gather list).
-/

namespace ScopedResources

/-- A byte string: the contents of a file, a path, or what a stream carries. -/
abbrev Bytes := List UInt8

namespace Bytes

/-- The number of bytes in a list of byte strings that are written in one go. -/
def totalLength : List Bytes → Nat
  | [] => 0
  | slice :: slices => slice.length + totalLength slices

/-- The same octet `count` times. -/
def filled (count : Nat) (byte : UInt8) : Bytes :=
  List.replicate count byte

end Bytes

end ScopedResources
