/-
  What generational slots answer after each operation.

  A store is known by what it answers (`Slots.get?`), by which of its slots are
  in use (`Slots.isOccupied`) and by the generations of its slots
  (`Slots.generation?`).  Every operation changes these at one index only.

  * `get?_set`, `get?_remove`, `Inserted`: the answers after an operation.
  * `generation?_remove`, `generation?_set`: a slot gets its next generation
    when its value is taken out, and at no other time.
  * `set_remove_comm`, `remove_set_self`: operations at different indices do
    not meet.
-/
import ScopedResources.Slots

namespace ScopedResources

theorem Index.eq_of_eq {i j : Index} (ha : i.arena = j.arena) (hs : i.slot = j.slot)
    (hg : i.generation = j.generation) : i = j := by
  cases i; cases j; simp_all

/-- The generation that a slot has now. -/
def Slot.generation {α : Type} : Slot α → UInt32
  | .occupied _ generation | .vacant _ generation => generation

/-- Whether a slot holds a value. -/
def Slot.isOccupied {α : Type} : Slot α → Bool
  | .occupied _ _ => true
  | .vacant _ _ => false

namespace Slots

variable {α : Type} {s s' : Slots α} {i j : Index} {u v : α}

/-- The generation of a slot, if there is a slot of this number. -/
def generation? (s : Slots α) (slot : UInt32) : Option UInt32 :=
  (s.slots[slot.toNat]?).map Slot.generation

/-- Whether the slot of a number holds a value. -/
def isOccupied (s : Slots α) (slot : UInt32) : Bool :=
  (s.slots[slot.toNat]?).any Slot.isOccupied

/-! ## Answers and slots -/

theorem get?_eq_some_iff :
    s.get? i = some v ↔
      i.arena = s.arena ∧ s.slots[i.slot.toNat]? = some (.occupied v i.generation) := by
  unfold get?
  split
  · rename_i ha
    rw [Option.bind_eq_some_iff]
    constructor
    · rintro ⟨slot, hs, hv⟩
      cases slot with
      | occupied w g =>
        simp only [Slot.valueAt?] at hv
        split at hv
        · rename_i hg; cases hv; exact ⟨ha, by rw [hs, hg]⟩
        · cases hv
      | vacant n g => cases hv
    · rintro ⟨-, hs⟩
      exact ⟨_, hs, by simp [Slot.valueAt?]⟩
  · rename_i ha
    constructor
    · intro h; cases h
    · rintro ⟨h, -⟩; exact absurd h ha

theorem arena_of_get? (h : s.get? i = some v) : i.arena = s.arena :=
  (get?_eq_some_iff.1 h).1

theorem slot_of_get? (h : s.get? i = some v) :
    s.slots[i.slot.toNat]? = some (.occupied v i.generation) :=
  (get?_eq_some_iff.1 h).2

theorem isOccupied_of_get? (h : s.get? i = some v) : s.isOccupied i.slot = true := by
  simp [isOccupied, slot_of_get? h, Slot.isOccupied]

theorem generation?_of_get? (h : s.get? i = some v) : s.generation? i.slot = some i.generation := by
  simp [generation?, slot_of_get? h, Slot.generation]

/-- An index is alive iff it is the store's own, its slot is in use and it has
    the slot's generation. -/
theorem isSome_get?_iff :
    (s.get? i).isSome ↔ i.arena = s.arena ∧ s.isOccupied i.slot = true ∧
      s.generation? i.slot = some i.generation := by
  constructor
  · intro h
    obtain ⟨v, hv⟩ := Option.isSome_iff_exists.1 h
    exact ⟨arena_of_get? hv, isOccupied_of_get? hv, generation?_of_get? hv⟩
  · rintro ⟨ha, ho, hg⟩
    unfold isOccupied at ho
    unfold generation? at hg
    rcases hs : s.slots[i.slot.toNat]? with _ | ⟨w, g⟩ | ⟨n, g⟩
    · rw [hs] at ho; cases ho
    · rw [hs] at hg
      simp only [Option.map_some, Slot.generation, Option.some.injEq] at hg
      rw [get?_eq_some_iff.2 ⟨ha, by rw [hs, hg]⟩]; rfl
    · rw [hs] at ho; cases ho

/-- Two indices that are alive in one slot are the same. -/
theorem eq_of_slot_eq (hi : s.get? i = some u) (hj : s.get? j = some v) (h : i.slot = j.slot) :
    i = j := by
  have hg : some i.generation = some j.generation := by
    rw [← generation?_of_get? hi, h, generation?_of_get? hj]
  exact Index.eq_of_eq ((arena_of_get? hi).trans (arena_of_get? hj).symm) h (Option.some.inj hg)

theorem toNat_ne_of_ne (hi : s.get? i = some u) (hj : s.get? j = some v) (h : i ≠ j) :
    i.slot.toNat ≠ j.slot.toNat :=
  fun he => h (eq_of_slot_eq hi hj (UInt32.toNat_inj.1 he))

/-! ## Replacing -/

theorem set_of_get? (h : s.get? i = some u) :
    s.set i v =
      { s with slots := s.slots.setIfInBounds i.slot.toNat (.occupied v i.generation) } := by
  simp [set, h]

theorem set_of_none (h : s.get? i = none) : s.set i v = s := by
  simp [set, h]

@[simp] theorem arena_set (s : Slots α) (i : Index) (v : α) : (s.set i v).arena = s.arena := by
  unfold set; split <;> rfl

@[simp] theorem size_set (s : Slots α) (i : Index) (v : α) : (s.set i v).size = s.size := by
  unfold set; split <;> rfl

theorem get?_set_self (h : s.get? i = some u) : (s.set i v).get? i = some v := by
  obtain ⟨ha, hs⟩ := get?_eq_some_iff.1 h
  obtain ⟨hlt, -⟩ := Array.getElem?_eq_some_iff.1 hs
  rw [set_of_get? h, get?_eq_some_iff]
  exact ⟨ha, by simp [hlt]⟩

theorem get?_set_ne (s : Slots α) (v : α) (h : j ≠ i) : (s.set i v).get? j = s.get? j := by
  rcases hi : s.get? i with _ | u
  · rw [set_of_none hi]
  ext w
  rw [get?_eq_some_iff, get?_eq_some_iff, arena_set, set_of_get? hi]
  refine and_congr_right fun ha => ?_
  by_cases hn : i.slot.toNat = j.slot.toNat
  · -- the one slot: neither value is under the generation of `j`
    have hg : i.generation ≠ j.generation := fun hg =>
      h (Index.eq_of_eq (ha.trans (arena_of_get? hi).symm) (UInt32.toNat_inj.1 hn).symm hg.symm)
    obtain ⟨hlt, -⟩ := Array.getElem?_eq_some_iff.1 (slot_of_get? hi)
    rw [← hn, Array.getElem?_setIfInBounds_self_of_lt hlt, slot_of_get? hi]
    simp [hg]
  · rw [Array.getElem?_setIfInBounds_ne hn]

/-- What a store answers after a value was replaced. -/
theorem get?_set (h : s.get? i = some u) (j : Index) :
    (s.set i v).get? j = if j = i then some v else s.get? j := by
  split
  · rename_i hj; rw [hj, get?_set_self h]
  · rename_i hj; exact get?_set_ne s v hj

theorem isSome_get?_set (s : Slots α) (i j : Index) (v : α) :
    ((s.set i v).get? j).isSome = (s.get? j).isSome := by
  rcases hi : s.get? i with _ | u
  · rw [set_of_none hi]
  · rw [get?_set hi]
    split
    · rename_i hj; rw [hj, hi]; rfl
    · rfl

@[simp] theorem generation?_set (s : Slots α) (i : Index) (v : α) (n : UInt32) :
    (s.set i v).generation? n = s.generation? n := by
  rcases hi : s.get? i with _ | u
  · rw [set_of_none hi]
  rw [set_of_get? hi]
  unfold generation?
  by_cases hn : i.slot.toNat = n.toNat
  · obtain ⟨hlt, -⟩ := Array.getElem?_eq_some_iff.1 (slot_of_get? hi)
    rw [← hn, Array.getElem?_setIfInBounds_self_of_lt hlt, slot_of_get? hi]
    rfl
  · rw [Array.getElem?_setIfInBounds_ne hn]

@[simp] theorem isOccupied_set (s : Slots α) (i : Index) (v : α) (n : UInt32) :
    (s.set i v).isOccupied n = s.isOccupied n := by
  rcases hi : s.get? i with _ | u
  · rw [set_of_none hi]
  rw [set_of_get? hi]
  unfold isOccupied
  by_cases hn : i.slot.toNat = n.toNat
  · obtain ⟨hlt, -⟩ := Array.getElem?_eq_some_iff.1 (slot_of_get? hi)
    rw [← hn, Array.getElem?_setIfInBounds_self_of_lt hlt, slot_of_get? hi]
    rfl
  · rw [Array.getElem?_setIfInBounds_ne hn]

/-- Replacing a value by itself changes nothing. -/
theorem set_eq_self (h : s.get? i = some v) : s.set i v = s := by
  have hs := slot_of_get? h
  obtain ⟨hlt, he⟩ := Array.getElem?_eq_some_iff.1 hs
  have hslots : s.slots.setIfInBounds i.slot.toNat (.occupied v i.generation) = s.slots := by
    ext n hn hn'
    · simp
    · rw [Array.getElem_setIfInBounds hn']
      split
      · rename_i hi; subst hi; exact he.symm
      · rfl
  rw [set_of_get? h, hslots]

theorem set_set (s : Slots α) (i : Index) (u v : α) : (s.set i u).set i v = s.set i v := by
  rcases hi : s.get? i with _ | w
  · rw [set_of_none (v := u) hi]
  · rw [set_of_get? (get?_set_self hi), set_of_get? hi, set_of_get? hi]
    simp

/-! ## Taking out -/

theorem remove_of_get? (h : s.get? i = some v) :
    s.remove i =
      { s with
        slots := s.slots.setIfInBounds i.slot.toNat (.vacant s.free (i.generation + 1))
        free := some i.slot
        size := s.size - 1 } := by
  simp [remove, h]

theorem remove_of_none (h : s.get? i = none) : s.remove i = s := by
  simp [remove, h]

@[simp] theorem arena_remove (s : Slots α) (i : Index) : (s.remove i).arena = s.arena := by
  unfold remove; split <;> rfl

theorem size_remove (h : s.get? i = some v) : (s.remove i).size = s.size - 1 := by
  rw [remove_of_get? h]

theorem slots_remove_self (h : s.get? i = some v) :
    (s.remove i).slots[i.slot.toNat]? = some (.vacant s.free (i.generation + 1)) := by
  obtain ⟨hlt, -⟩ := Array.getElem?_eq_some_iff.1 (slot_of_get? h)
  rw [remove_of_get? h, Array.getElem?_setIfInBounds_self_of_lt hlt]

theorem slots_remove_ne (s : Slots α) {n : UInt32} (h : n ≠ i.slot) :
    (s.remove i).slots[n.toNat]? = s.slots[n.toNat]? := by
  rcases hi : s.get? i with _ | v
  · rw [remove_of_none hi]
  · rw [remove_of_get? hi,
      Array.getElem?_setIfInBounds_ne fun hn => h (UInt32.toNat_inj.1 hn).symm]

@[simp] theorem get?_remove_self (s : Slots α) (i : Index) : (s.remove i).get? i = none := by
  rcases hi : s.get? i with _ | v
  · rw [remove_of_none hi, hi]
  · rw [← Option.not_isSome_iff_eq_none, isSome_get?_iff]
    rintro ⟨-, ho, -⟩
    simp [isOccupied, slots_remove_self hi, Slot.isOccupied] at ho

theorem get?_remove_ne (s : Slots α) (h : j ≠ i) : (s.remove i).get? j = s.get? j := by
  rcases hi : s.get? i with _ | v
  · rw [remove_of_none hi]
  ext w
  rw [get?_eq_some_iff, get?_eq_some_iff, arena_remove]
  refine and_congr_right fun ha => ?_
  by_cases hs : j.slot = i.slot
  · have hg : i.generation ≠ j.generation := fun hg =>
      h (Index.eq_of_eq (ha.trans (arena_of_get? hi).symm) hs hg.symm)
    rw [hs, slots_remove_self hi, slot_of_get? hi]
    simp [hg]
  · rw [slots_remove_ne s hs]

/-- What a store answers after a value was taken out. -/
theorem get?_remove (s : Slots α) (i j : Index) :
    (s.remove i).get? j = if j = i then none else s.get? j := by
  split
  · rename_i hj; rw [hj, get?_remove_self]
  · rename_i hj; exact get?_remove_ne s hj

/-- Taking a value out moves its slot to the next generation, and no other. -/
theorem generation?_remove (h : s.get? i = some v) (n : UInt32) :
    (s.remove i).generation? n = if n = i.slot then some (i.generation + 1) else s.generation? n := by
  unfold generation?
  split
  · rename_i hn; rw [hn, slots_remove_self h]; rfl
  · rename_i hn; rw [slots_remove_ne s hn]

theorem remove_set_self (s : Slots α) (i : Index) (u : α) : (s.set i u).remove i = s.remove i := by
  rcases hi : s.get? i with _ | w
  · rw [set_of_none hi]
  · rw [remove_of_get? (get?_set_self hi), set_of_get? hi, remove_of_get? hi]
    simp

/-- Replacing and taking out at different indices do not meet. -/
theorem set_remove_comm (s : Slots α) (u : α) (h : i ≠ j) :
    (s.set i u).remove j = (s.remove j).set i u := by
  rcases hi : s.get? i with _ | w
  · rw [set_of_none hi, set_of_none (by rw [get?_remove_ne s h, hi])]
  rcases hj : s.get? j with _ | w'
  · rw [remove_of_none hj, remove_of_none (by rw [get?_set_ne s u h.symm, hj])]
  have hn : j.slot.toNat ≠ i.slot.toNat := (toNat_ne_of_ne hi hj h).symm
  have hj' : (s.set i u).get? j = some w' := by rw [get?_set_ne s u h.symm, hj]
  have hi' : (s.remove j).get? i = some w := by rw [get?_remove_ne s h, hi]
  rw [remove_of_get? hj', set_of_get? hi', set_of_get? hi, remove_of_get? hj,
    Array.setIfInBounds_comm _ _ hn]

/-! ## Putting in -/

/-- What it means that a value was put into a store, at an index that was not
    alive before. -/
structure Inserted (s : Slots α) (v : α) (i : Index) (s' : Slots α) : Prop where
  fresh : s.get? i = none
  self : s'.get? i = some v
  other : ∀ j, j ≠ i → s'.get? j = s.get? j
  arena : s'.arena = s.arena
  size : s'.size = s.size + 1
  /-- The slot was not in use. -/
  vacant : s.isOccupied i.slot = false
  occupied : ∀ n, n ≠ i.slot → s'.isOccupied n = s.isOccupied n
  /-- No slot that was there gets another generation. -/
  generation : ∀ n g, s.generation? n = some g → s'.generation? n = some g
  /-- The slots that are new begin with generation zero. -/
  began : ∀ n, s.generation? n = none → s'.generation? n = none ∨ s'.generation? n = some 0

/-- Putting a value into a slot that is vacant, or that is new. -/
theorem inserted_of_slots {n : UInt32} {g : UInt32} (ha : s'.arena = s.arena)
    (hz : s'.size = s.size + 1) (hv : s.isOccupied n = false)
    (hg : s.generation? n = some g ∨ s.generation? n = none ∧ g = 0)
    (hself : s'.slots[n.toNat]? = some (.occupied v g))
    (hother : ∀ m : UInt32, m ≠ n → s'.slots[m.toNat]? = s.slots[m.toNat]?) :
    Inserted s v ⟨s.arena, n, g⟩ s' where
  fresh := by
    rw [← Option.not_isSome_iff_eq_none, isSome_get?_iff]
    rintro ⟨-, ho, -⟩
    exact absurd (ho.symm.trans hv) (by decide)
  self := get?_eq_some_iff.2 ⟨ha.symm, hself⟩
  other j hj := by
    by_cases hs : j.slot = n
    · -- the slot was vacant, and its generation is not that of `j`
      have h₁ : s.get? j = none := by
        rw [← Option.not_isSome_iff_eq_none, isSome_get?_iff, hs]
        rintro ⟨-, ho, -⟩
        exact absurd (ho.symm.trans hv) (by decide)
      rw [h₁, Option.eq_none_iff_forall_ne_some]
      intro w hw
      have hw' := slot_of_get? hw
      rw [hs, hself] at hw'
      injection hw' with hw'
      injection hw' with _ hg'
      exact hj (Index.eq_of_eq ((arena_of_get? hw).trans ha) hs hg'.symm)
    · ext w
      rw [get?_eq_some_iff, get?_eq_some_iff, ha, hother _ hs]
  arena := ha
  size := hz
  vacant := hv
  occupied m hm := by unfold isOccupied; rw [hother m hm]
  generation m g' hm := by
    by_cases hs : m = n
    · subst hs
      rcases hg with hg | ⟨hg, -⟩
      · rw [hm] at hg; cases hg
        unfold generation?; rw [hself]; rfl
      · rw [hm] at hg; cases hg
    · unfold generation?; rw [hother m hs]; exact hm
  began m hm := by
    by_cases hs : m = n
    · subst hs
      rcases hg with hg | ⟨-, rfl⟩
      · rw [hm] at hg; cases hg
      · right; unfold generation?; rw [hself]; rfl
    · left; unfold generation?; rw [hother m hs]; exact hm

/-- An insertion that gives an index has put the value there. -/
theorem insert_some (h : s.insert v = (some i, s')) : Inserted s v i s' := by
  unfold insert at h
  split at h
  · rename_i slot _
    split at h
    · rename_i next g hs
      obtain ⟨hlt, -⟩ := Array.getElem?_eq_some_iff.1 hs
      cases h
      refine inserted_of_slots rfl rfl (by simp [isOccupied, hs, Slot.isOccupied])
        (.inl (by simp [generation?, hs, Slot.generation]))
        (Array.getElem?_setIfInBounds_self_of_lt hlt) fun m hm => ?_
      exact Array.getElem?_setIfInBounds_ne fun he => hm (UInt32.toNat_inj.1 he).symm
    · cases h
  · split at h
    · rename_i hlt
      cases h
      have hn : (UInt32.ofNat s.slots.size).toNat = s.slots.size :=
        UInt32.toNat_ofNat_of_lt' (by simpa [capacity, UInt32.size] using hlt)
      have hnone : s.slots[(UInt32.ofNat s.slots.size).toNat]? = none := by
        rw [hn]; exact Array.getElem?_eq_none (Nat.le_refl _)
      refine inserted_of_slots rfl rfl (by rw [isOccupied, hnone]; rfl)
        (.inr ⟨by rw [generation?, hnone]; rfl, rfl⟩) (by simp [hn]) fun m hm => ?_
      have hne : m.toNat ≠ s.slots.size := fun he => hm (UInt32.toNat_inj.1 (he.trans hn.symm))
      rw [Array.getElem?_push]
      split
      · rename_i he; exact absurd he hne
      · rfl
    · cases h

theorem insert_none (h : s.insert v = (none, s')) : s' = s := by
  unfold insert at h
  split at h
  · split at h <;> cases h
    rfl
  · split at h <;> cases h
    rfl

end Slots

end ScopedResources
