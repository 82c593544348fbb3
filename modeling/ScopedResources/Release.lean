/-
  What a cleanup record releases.

  A release is data: the teardown that meets it decides when it happens, and
  `ScopedResources.Run.Release` says what happens.  Memory blocks and texts
  are owned by their records, so releasing them is forgetting them.

  A block keeps the bytes that were written; all others are zero.
-/

namespace ScopedResources

/-! ## Payloads -/

/-- A block of memory, zero where nothing was written. -/
structure Block where
  size : Nat
  /-- The bytes that were written, by position, each position once. -/
  written : List (Nat × UInt8)
  deriving DecidableEq, Repr

namespace Block

/-- The sizes from which on there is no memory for a block. -/
def limit : Nat := Nat.pow 2 40

def zeroed (size : Nat) : Block :=
  ⟨size, []⟩

def get? (b : Block) (i : Nat) : Option UInt8 :=
  if i < b.size then some ((b.written.lookup i).getD 0) else none

/-- Writes a byte; a position outside of the block changes nothing. -/
def set (b : Block) (i : Nat) (byte : UInt8) : Block :=
  if i < b.size then ⟨b.size, (i, byte) :: b.written.filter (·.1 ≠ i)⟩ else b

/-- The number of bytes other than zero. -/
def nonzero (b : Block) : Nat :=
  (b.written.filter (·.2 ≠ 0)).length

/-- The bytes in order. -/
def toList (b : Block) : List UInt8 :=
  (List.range b.size).map fun i => (b.get? i).getD 0

end Block

/-- What a record owns. -/
inductive Payload where
  | block (b : Block)
  | text (s : String)
  deriving DecidableEq, Repr

/-! ## Releases -/

/-- The number of a context, by order of creation. -/
abbrev ContextId := Nat

/-- The number of a debug lock, by order of creation. -/
abbrev LockId := Nat

/-- What a committed record releases. -/
inductive Release where
  /-- A deferred action that notes its label; it may panic after that. -/
  | note (label : String) (panics : Bool)
  /-- A deferred action that notes its label and then drops a context. -/
  | dropContext (label : String) (victim : ContextId)
  /-- Closes a descriptor. -/
  | close (descriptor : Int)
  /-- Gives up a block or a text. -/
  | forget (payload : Payload)
  /-- Puts back the name that the program had before. -/
  | restoreName (previous : String)
  /-- Ends one acquisition of a debug lock. -/
  | leaveLock (lock : LockId)
  deriving DecidableEq, Repr

/-- The label that a release notes, if it notes one. -/
def Release.label? : Release → Option String
  | note label _ | dropContext label _ => some label
  | close _ | forget _ | restoreName _ | leaveLock _ => none

def Release.drops (k : ContextId) : Release → Bool
  | dropContext _ victim => victim == k
  | note _ _ | close _ | forget _ | restoreName _ | leaveLock _ => false

end ScopedResources
