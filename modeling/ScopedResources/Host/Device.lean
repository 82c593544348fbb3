/-
  Devices: files that keep nothing.

  Everybody may read a device and write to it; what that does is up to the
  device.

  * `Device.read` is what a device gives, `Device.write` what it takes.
-/
import ScopedResources.Bytes
import ScopedResources.OsError

namespace ScopedResources

/-- A device. -/
inductive Device where
  /-- Takes everything, and gives nothing. -/
  | null
  /-- Takes everything, and gives zeros without end. -/
  | zero
  /-- Has no room for anything, and gives zeros without end. -/
  | full
  deriving DecidableEq, Repr

namespace Device

/-- All devices. -/
def all : List Device := [null, zero, full]

def name : Device → String
  | null => "null"
  | zero => "zero"
  | full => "full"

/-- The permission bits of devices. -/
def permissions : Nat := 0o666

/-- What a device gives when `limit` bytes are asked for. -/
def read (limit : Nat) : Device → Bytes
  | null => []
  | zero | full => Bytes.filled limit 0

/-- How many bytes of a write a device takes. -/
def write (bytes : Bytes) : Device → Except Errno Nat
  | null | zero => .ok bytes.length
  | full => .error Errno.noSpace

end Device

end ScopedResources
