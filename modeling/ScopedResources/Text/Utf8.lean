/-
  UTF-8: the octets of a text, and the text in a byte string.

  Octets are read by a machine (`Awaiting`, `start`, `Awaiting.accept`) that
  refuses at the first octet that no well-formed text has there: after `E0`,
  `ED`, `F0` and `F4` the second octet has a narrower range than later ones.
  What the machine had accepted before it refused is a maximal ill-formed part.

  * `Utf8.encode` gives the octets of a text.
  * `Utf8.scan` reads a byte string as characters and ill-formed parts.
  * `Utf8.decode?` is the text, if no part is ill-formed; `Utf8.lossy` shows
    each ill-formed part as one replacement character.
-/
import ScopedResources.Bytes

namespace ScopedResources.Utf8

/-! ## Writing -/

def encodeChar (c : Char) : Bytes :=
  let n := c.toNat
  if n < 0x80 then [UInt8.ofNat n]
  else if n < 0x800 then
    [UInt8.ofNat (0xC0 + n / 0x40), UInt8.ofNat (0x80 + n % 0x40)]
  else if n < 0x10000 then
    [UInt8.ofNat (0xE0 + n / 0x1000), UInt8.ofNat (0x80 + n / 0x40 % 0x40),
      UInt8.ofNat (0x80 + n % 0x40)]
  else
    [UInt8.ofNat (0xF0 + n / 0x40000), UInt8.ofNat (0x80 + n / 0x1000 % 0x40),
      UInt8.ofNat (0x80 + n / 0x40 % 0x40), UInt8.ofNat (0x80 + n % 0x40)]

def encode (s : String) : Bytes :=
  s.toList.flatMap encodeChar

def size (s : String) : Nat :=
  (encode s).length

/-! ## Reading -/

/-- A character that has begun: `owed` octets are still to come, the next one
    between `low` and `high`; `value` holds the bits read so far. -/
structure Awaiting where
  owed : Nat
  low : Nat
  high : Nat
  value : Nat
  deriving DecidableEq, Repr

/-- What an octet leads to. -/
inductive Progress where
  /-- The character is complete. -/
  | char (c : Char)
  /-- More octets are owed. -/
  | more (state : Awaiting)
  /-- No well-formed text has this octet here. -/
  | refused
  deriving DecidableEq, Repr

/-- The first octet of a character. -/
def start (b : Nat) : Progress :=
  if b < 0x80 then .char (Char.ofNat b)
  else if b < 0xC2 then .refused
  else if b < 0xE0 then .more ⟨1, 0x80, 0xBF, b - 0xC0⟩
  else if b < 0xF0 then
    .more ⟨2, if b = 0xE0 then 0xA0 else 0x80, if b = 0xED then 0x9F else 0xBF, b - 0xE0⟩
  else if b < 0xF5 then
    .more ⟨3, if b = 0xF0 then 0x90 else 0x80, if b = 0xF4 then 0x8F else 0xBF, b - 0xF0⟩
  else .refused

def Awaiting.accept (state : Awaiting) (b : Nat) : Progress :=
  if state.low ≤ b ∧ b ≤ state.high then
    let value := state.value * 0x40 + (b - 0x80)
    if state.owed ≤ 1 then .char (Char.ofNat value)
    else .more ⟨state.owed - 1, 0x80, 0xBF, value⟩
  else .refused

/-- The characters of a byte string in order, with `none` for each maximal
    ill-formed part; `state` is the character that has begun, if any. -/
def scanFrom : Option Awaiting → Bytes → List (Option Char)
  | none, [] => []
  | some _, [] => [none]
  | none, b :: rest =>
    match start b.toNat with
    | .char c => some c :: scanFrom none rest
    | .more state => scanFrom (some state) rest
    | .refused => none :: scanFrom none rest
  | some state, b :: rest =>
    match state.accept b.toNat with
    | .char c => some c :: scanFrom none rest
    | .more state => scanFrom (some state) rest
    | .refused =>
      match start b.toNat with
      | .char c => none :: some c :: scanFrom none rest
      | .more state => none :: scanFrom (some state) rest
      | .refused => none :: none :: scanFrom none rest

/-- The characters of a byte string, with `none` for each ill-formed part. -/
def scan (bytes : Bytes) : List (Option Char) :=
  scanFrom none bytes

/-- The text with these octets, if they are well formed. -/
def decode? (bytes : Bytes) : Option String :=
  ((scan bytes).mapM id).map String.ofList

/-- The text of a byte string, each ill-formed part shown as `U+FFFD`. -/
def lossy (bytes : Bytes) : String :=
  String.ofList ((scan bytes).map (·.getD '\uFFFD'))

end ScopedResources.Utf8
