/-
  Terminals: what is written to one waits for the other side.

  A terminal keeps a limited number of bytes that the other side has not taken,
  and shows the end of a line as two.  A write ends early when there is no more
  room.

  * `Terminal.write` says how many bytes were taken.
-/
import ScopedResources.Bytes

namespace ScopedResources

/-- A terminal: its path, and how many bytes it still has room for. -/
structure Terminal where
  path : Bytes
  room : Nat
  deriving DecidableEq, Repr

namespace Terminal

/-- How many bytes a terminal keeps for its other side. -/
def capacity : Nat := 12032

def new (path : Bytes) : Terminal := ⟨path, capacity⟩

def width (byte : UInt8) : Nat :=
  if byte = 0x0A then 2 else 1

/-- How many of some bytes fit into a room, and the room that is left. -/
def fit : Nat → Bytes → Nat × Nat
  | room, [] => (0, room)
  | room, byte :: bytes =>
    if width byte ≤ room then
      let (count, left) := fit (room - width byte) bytes
      (count + 1, left)
    else (0, room)

/-- Writes as many bytes as fit, and says how many that are. -/
def write (t : Terminal) (bytes : Bytes) : Nat × Terminal :=
  let (count, room) := fit t.room bytes
  (count, { t with room })

end Terminal

end ScopedResources
