/-
  Generational slots: a store whose indices go stale.

  Values live in numbered slots.  A slot that is vacated is used again, the
  one vacated last first, but under the next generation, so that an index kept
  past its value's removal finds nothing.  An index also carries the identity
  of the store that issued it and finds nothing in another store.

  * `Slots.insert` puts a value into a free slot, or into a new one.
  * `Slots.get?`, `Slots.set` and `Slots.remove` see a value only through
    the index that was issued for it.
  * Generations are 32-bit words and wrap around.
-/

namespace ScopedResources

/-- An index into slots: which store issued it, which slot it names, and the
    slot's generation when it was issued. -/
structure Index where
  arena : UInt32
  slot : UInt32
  generation : UInt32
  deriving DecidableEq, Repr

/-- One slot. -/
inductive Slot (α : Type) where
  /-- The slot holds a value. -/
  | occupied (value : α) (generation : UInt32)
  /-- The slot is free: the free slot after it, and the generation that the
      next value gets. -/
  | vacant (next : Option UInt32) (generation : UInt32)
  deriving Repr

def Slot.valueAt? {α : Type} (slot : Slot α) (generation : UInt32) : Option α :=
  match slot with
  | .occupied value g => if g = generation then some value else none
  | .vacant _ _ => none

/-- A store of values in slots. -/
structure Slots (α : Type) where
  /-- The identity of the store. -/
  arena : UInt32
  slots : Array (Slot α)
  /-- The free slot that is used next; free slots are linked from there. -/
  free : Option UInt32
  /-- The number of values in the store. -/
  size : Nat
  deriving Repr

namespace Slots

variable {α : Type}

/-- The greatest number of slots: a slot number is a 32-bit word. -/
def capacity : Nat := Nat.pow 2 32

def empty (arena : UInt32) : Slots α :=
  ⟨arena, #[], none, 0⟩

def get? (s : Slots α) (i : Index) : Option α :=
  if i.arena = s.arena then s.slots[i.slot.toNat]?.bind (·.valueAt? i.generation) else none

/-- Whether some value in the store satisfies a condition. -/
def any (s : Slots α) (p : α → Bool) : Bool :=
  s.slots.any fun
    | .occupied value _ => p value
    | .vacant _ _ => false

/-- Puts a value into the store and gives its index; when every slot number is
    in use, nothing happens. -/
def insert (s : Slots α) (value : α) : Option Index × Slots α :=
  match s.free with
  | some slot =>
    match s.slots[slot.toNat]? with
    | some (.vacant next generation) =>
      (some ⟨s.arena, slot, generation⟩,
        { s with
          slots := s.slots.setIfInBounds slot.toNat (.occupied value generation)
          free := next
          size := s.size + 1 })
    | _ => (none, s)
  | none =>
    if s.slots.size < capacity then
      (some ⟨s.arena, UInt32.ofNat s.slots.size, 0⟩,
        { s with slots := s.slots.push (.occupied value 0), size := s.size + 1 })
    else (none, s)

/-- Replaces the value at an index; an index that finds nothing changes nothing. -/
def set (s : Slots α) (i : Index) (value : α) : Slots α :=
  match s.get? i with
  | some _ =>
    { s with slots := s.slots.setIfInBounds i.slot.toNat (.occupied value i.generation) }
  | none => s

/-- Takes the value at an index out of the store; its slot is the next to be
    used, under the next generation.  An index that finds nothing changes
    nothing. -/
def remove (s : Slots α) (i : Index) : Slots α :=
  match s.get? i with
  | some _ =>
    { s with
      slots := s.slots.setIfInBounds i.slot.toNat (.vacant s.free (i.generation + 1))
      free := some i.slot
      size := s.size - 1 }
  | none => s

end Slots

end ScopedResources
