/-
  Slots as a finite map.

  A store answers as the map from the indices that it has issued, and that were not taken
  out since, to their last values.  Its free slots are linked through the slots themselves:
  the way along the links meets each of them once, and then ends.  So a slot is new only
  when all slots are in use, and there are never more slots than values at one time.

  * `Slots.Op` are the operations on a store; `Slots.after` is what they leave of a store
    that was empty, `Slots.contents` the map that it stands for then.
  * `Slots.Chain` is the way along the links, and `Slots.Linked` the invariant that each
    operation keeps.
  * `Slots.vacated` is how often a slot was vacated; its generation counts that, up to
    wrapping around.
  * `finite_map`: what a store answers after any operations, and when an index finds a
    value again after its own was taken out.
-/
import Mathlib.Algebra.Group.Nat.Defs
import Mathlib.Data.List.Infix
import Mathlib.Order.Bounds.Basic
import ScopedResources.Proofs.Slots

namespace ScopedResources.Slots

variable {α : Type} {s s' : Slots α} {i : Index} {v : α} {n : UInt32} {arena : UInt32}

/-! ## Operations -/

/-- An operation on a store; the index may be any. -/
inductive Op (α : Type) where
  | insert (v : α)
  | remove (i : Index)
  | set (i : Index) (v : α)

/-- What an operation leaves of a store. -/
def Op.apply : Op α → Slots α → Slots α
  | insert v, s => (s.insert v).2
  | remove i, s => s.remove i
  | set i v, s => s.set i v

/-- What an operation on a store leaves of a map from indices to values: what is put in is
    at the index that the store issues for it. -/
def Op.note : Op α → Slots α → (Index → Option α) → Index → Option α
  | insert v, s, m =>
    match (s.insert v).1 with
    | some i => fun j => if j = i then some v else m j
    | none => m
  | remove i, _, m => fun j => if j = i then none else m j
  | set i v, _, m => fun j => if j = i then (m i).map fun _ => v else m j

/-- A store that was empty, and the map from the indices that it has issued to their
    values, after some operations. -/
def played (arena : UInt32) (ops : List (Op α)) : Slots α × (Index → Option α) :=
  ops.foldl (fun p o => (o.apply p.1, o.note p.1 p.2)) (empty arena, fun _ => none)

/-- A store that was empty, after some operations. -/
def after (arena : UInt32) (ops : List (Op α)) : Slots α :=
  (played arena ops).1

/-- The map from the indices that operations have issued, and not taken out, to their last
    values. -/
def contents (arena : UInt32) (ops : List (Op α)) : Index → Option α :=
  (played arena ops).2

@[simp] theorem after_nil : after arena ([] : List (Op α)) = empty arena := rfl

theorem after_snoc (ops : List (Op α)) (o : Op α) :
    after arena (ops ++ [o]) = o.apply (after arena ops) := by
  rw [after, played, List.foldl_append]
  rfl

theorem contents_snoc (ops : List (Op α)) (o : Op α) :
    contents arena (ops ++ [o]) = o.note (after arena ops) (contents arena ops) := by
  rw [contents, played, List.foldl_append]
  rfl

/-! ## Answers -/

/-- What a store answers after an operation, from what it answered before. -/
theorem get?_apply {m : Index → Option α} (hm : ∀ i, s.get? i = m i) (o : Op α) (j : Index) :
    (o.apply s).get? j = o.note s m j := by
  cases o with
  | insert v =>
    rw [Op.apply, Op.note]
    rcases hs : s.insert v with ⟨_ | i, s'⟩
    · rw [insert_none hs]
      exact hm j
    · have hI := insert_some hs
      dsimp only
      split
      · rename_i hj
        rw [hj, hI.self]
      · rename_i hj
        rw [hI.other j hj, hm j]
  | remove i =>
    rw [Op.apply, Op.note, get?_remove, hm j]
  | set i v =>
    rw [Op.apply, Op.note]
    rcases hi : s.get? i with _ | u
    · rw [set_of_none hi, ← hm i, hi]
      dsimp only
      split
      · rename_i hj
        rw [hj, hi]
        rfl
      · exact hm j
    · rw [get?_set hi, ← hm i, hi, hm j]
      rfl

/-- An index that is alive stays so until it is taken out. -/
theorem isSome_apply {o : Op α} (ho : ∀ j, o = .remove j → j ≠ i) (hi : (s.get? i).isSome) :
    ((o.apply s).get? i).isSome := by
  cases o with
  | insert v =>
    rw [Op.apply]
    rcases hs : s.insert v with ⟨_ | j, s'⟩
    · rw [insert_none hs]
      exact hi
    · have hI := insert_some hs
      have hne : i ≠ j := by
        rintro rfl
        rw [hI.fresh] at hi
        cases hi
      rw [hI.other i hne]
      exact hi
  | remove j => rwa [Op.apply, get?_remove_ne s (ho j rfl).symm]
  | set j v => rwa [Op.apply, isSome_get?_set]

/-! ## Free slots -/

/-- Whether a slot is free. -/
def Vacant (s : Slots α) (n : UInt32) : Prop :=
  ∃ next g, s.slots[n.toNat]? = some (.vacant next g)

/-- The slots that are met on the way along the links of free slots, until there is none. -/
inductive Chain (s : Slots α) : Option UInt32 → List UInt32 → Prop
  | nil : Chain s none []
  | cons {n : UInt32} {next : Option UInt32} {g : UInt32} {l : List UInt32} :
    s.slots[n.toNat]? = some (.vacant next g) → Chain s next l → Chain s (some n) (n :: l)

/-- Nothing changes on the way if none of its slots does. -/
theorem Chain.congr {a : Option UInt32} {l : List UInt32} (h : s.Chain a l)
    (hs : ∀ n ∈ l, s'.slots[n.toNat]? = s.slots[n.toNat]?) : s'.Chain a l := by
  induction h with
  | nil => exact .nil
  | @cons n next g l hn _ ih =>
    refine .cons ((hs n (List.mem_cons_self ..)).trans hn) (ih fun m hm => ?_)
    exact hs m (List.mem_cons_of_mem _ hm)

/-- The invariant of stores: the free slots are linked, the values are counted, and every
    slot has a number. -/
structure Linked (s : Slots α) : Prop where
  chain : ∃ l, s.Chain s.free l ∧ l.Nodup ∧ ∀ n, n ∈ l ↔ s.Vacant n
  size : s.size = s.slots.countP (·.isOccupied)
  bound : s.slots.size ≤ capacity

theorem not_vacant_of_get? (h : s.get? i = some v) : ¬ s.Vacant i.slot := by
  rintro ⟨next, g, hn⟩
  rw [slot_of_get? h] at hn
  cases hn

theorem vacant_congr (h : s'.slots[n.toNat]? = s.slots[n.toNat]?) : s'.Vacant n ↔ s.Vacant n := by
  rw [Vacant, Vacant, h]

theorem countP_setIfInBounds (slot : Slot α) {old : Slot α} (h : s.slots[n.toNat]? = some old) :
    (s.slots.setIfInBounds n.toNat slot).countP (·.isOccupied) + old.isOccupied.toNat =
      s.slots.countP (·.isOccupied) + slot.isOccupied.toNat := by
  obtain ⟨hlt, he⟩ := Array.getElem?_eq_some_iff.1 h
  have hpos : old.isOccupied = true → 0 < s.slots.countP (·.isOccupied) := fun ho =>
    Array.countP_pos_iff.2 ⟨old, he ▸ Array.getElem_mem hlt, ho⟩
  rw [Array.setIfInBounds, dif_pos hlt, Array.countP_set, he]
  cases ho : old.isOccupied
  · simp
    cases slot.isOccupied <;> rfl
  · have := hpos ho
    cases slot.isOccupied
    · simp
      omega
    · simp
      omega

namespace Linked

/-- The slot that is used next is free. -/
theorem vacant_of_free (h : s.Linked) (hn : s.free = some n) : s.Vacant n := by
  obtain ⟨l, hl, -, hmem⟩ := h.chain
  rw [hn] at hl
  cases hl with
  | cons hn _ => exact ⟨_, _, hn⟩

/-- Where no slot is linked, all are in use. -/
theorem isOccupied_of_free (h : s.Linked) (hfree : s.free = none) :
    ∀ slot ∈ s.slots, slot.isOccupied = true := by
  obtain ⟨l, hl, -, hmem⟩ := h.chain
  rw [hfree] at hl
  cases hl
  intro slot hslot
  obtain ⟨n, hlt, rfl⟩ := Array.mem_iff_getElem.1 hslot
  have hn : (UInt32.ofNat n).toNat = n :=
    UInt32.toNat_ofNat_of_lt' (Nat.lt_of_lt_of_le hlt h.bound)
  rcases hs : s.slots[n] with ⟨v, g⟩ | ⟨next, g⟩
  · rfl
  · have hvacant : s.Vacant (UInt32.ofNat n) :=
      ⟨next, g, by rw [hn, Array.getElem?_eq_getElem hlt, hs]⟩
    cases (hmem _).2 hvacant

theorem size_eq_of_free (h : s.Linked) (hfree : s.free = none) : s.size = s.slots.size := by
  rw [h.size, Array.countP_eq_size]
  exact h.isOccupied_of_free hfree

theorem size_le (h : s.Linked) : s.size ≤ s.slots.size := by
  rw [h.size]
  exact Array.countP_le_size

/-- A store that holds a value counts it. -/
theorem size_pos (h : s.Linked) (hi : s.get? i = some v) : 0 < s.size := by
  rw [h.size, Array.countP_pos_iff]
  exact ⟨_, Array.mem_of_getElem? (slot_of_get? hi), rfl⟩

/-- The ways in which a value is put into a store: into the slot that is linked first, into a
    new slot, or nowhere. -/
theorem insert_cases (h : s.Linked) (v : α) :
    (∃ n next g, s.free = some n ∧ s.slots[n.toNat]? = some (.vacant next g) ∧
      s.insert v = (some ⟨s.arena, n, g⟩,
        ⟨s.arena, s.slots.setIfInBounds n.toNat (.occupied v g), next, s.size + 1⟩)) ∨
    (s.free = none ∧ s.slots.size < capacity ∧
      s.insert v = (some ⟨s.arena, .ofNat s.slots.size, 0⟩,
        ⟨s.arena, s.slots.push (.occupied v 0), none, s.size + 1⟩)) ∨
    (s.free = none ∧ s.slots.size = capacity ∧ s.insert v = (none, s)) := by
  rw [Slots.insert]
  rcases hfree : s.free with _ | n
  · dsimp only
    by_cases hlt : s.slots.size < capacity
    · exact .inr (.inl ⟨rfl, hlt, if_pos hlt⟩)
    · exact .inr (.inr ⟨rfl, Nat.le_antisymm h.bound (Nat.le_of_not_lt hlt), if_neg hlt⟩)
  · obtain ⟨next, g, hn⟩ := h.vacant_of_free hfree
    refine .inl ⟨n, next, g, rfl, hn, ?_⟩
    dsimp only
    rw [hn]

/-- There is room for another value unless all slots that can be are in use. -/
theorem insert_eq_none_iff (h : s.Linked) (v : α) : (s.insert v).1 = none ↔ s.size = capacity := by
  rcases h.insert_cases v with ⟨n, next, g, -, hn, he⟩ | ⟨hfree, hlt, he⟩ | ⟨hfree, hfull, he⟩
  · rw [he]
    refine iff_of_false (by simp) fun hsize => ?_
    have hall := Array.countP_eq_size.1 (h.size.symm.trans
      (Nat.le_antisymm h.size_le (hsize ▸ h.bound)))
    cases hall _ (Array.mem_of_getElem? hn)
  · rw [he, h.size_eq_of_free hfree]
    exact iff_of_false (by simp) hlt.ne
  · rw [he, h.size_eq_of_free hfree]
    exact iff_of_true rfl hfull

/-! ### Operations -/

theorem set (h : s.Linked) (i : Index) (v : α) : (s.set i v).Linked := by
  rcases hi : s.get? i with _ | u
  · rwa [set_of_none hi]
  obtain ⟨l, hl, hnodup, hmem⟩ := h.chain
  have hslots : ∀ n, n ≠ i.slot → (s.set i v).slots[n.toNat]? = s.slots[n.toNat]? := by
    intro n hn
    rw [set_of_get? hi]
    exact Array.getElem?_setIfInBounds_ne fun he => hn (UInt32.toNat_inj.1 he).symm
  have hvacant : ∀ n, (s.set i v).Vacant n ↔ s.Vacant n := by
    intro n
    by_cases hn : n = i.slot
    · subst hn
      exact iff_of_false (not_vacant_of_get? (get?_set_self hi)) (not_vacant_of_get? hi)
    · exact vacant_congr (hslots n hn)
  refine ⟨⟨l, ?_, hnodup, fun n => (hmem n).trans (hvacant n).symm⟩, ?_, ?_⟩
  · have hfree : (s.set i v).free = s.free := by rw [set_of_get? hi]
    rw [hfree]
    refine hl.congr fun n hn => hslots n ?_
    rintro rfl
    exact not_vacant_of_get? hi ((hmem _).1 hn)
  · have hcount := countP_setIfInBounds (.occupied v i.generation) (slot_of_get? hi)
    rw [size_set, h.size, set_of_get? hi]
    exact (Nat.add_right_cancel hcount).symm
  · rw [set_of_get? hi]
    simpa using h.bound

theorem remove (h : s.Linked) (i : Index) : (s.remove i).Linked := by
  rcases hi : s.get? i with _ | u
  · rwa [remove_of_none hi]
  obtain ⟨l, hl, hnodup, hmem⟩ := h.chain
  have hnot : i.slot ∉ l := fun hin => not_vacant_of_get? hi ((hmem _).1 hin)
  have hself := slots_remove_self hi
  have hfree : (s.remove i).free = some i.slot := by rw [remove_of_get? hi]
  refine ⟨⟨i.slot :: l, ?_, List.nodup_cons.2 ⟨hnot, hnodup⟩, fun n => ?_⟩, ?_, ?_⟩
  · rw [hfree]
    refine .cons hself (hl.congr fun n hn => slots_remove_ne s ?_)
    rintro rfl
    exact hnot hn
  · rw [List.mem_cons, hmem]
    by_cases hn : n = i.slot
    · subst hn
      exact iff_of_true (.inl rfl) ⟨_, _, hself⟩
    · rw [vacant_congr (slots_remove_ne s hn)]
      simp [hn]
  · have hcount := countP_setIfInBounds (.vacant s.free (i.generation + 1)) (slot_of_get? hi)
    rw [size_remove hi, h.size, remove_of_get? hi]
    exact Nat.sub_eq_of_eq_add hcount.symm
  · rw [remove_of_get? hi]
    simpa using h.bound

/-- The slot that is linked first is in use. -/
theorem reused {next : Option UInt32} {g : UInt32} (h : s.Linked) (v : α) (hfree : s.free = some n)
    (hn : s.slots[n.toNat]? = some (.vacant next g)) :
    Linked ⟨arena, s.slots.setIfInBounds n.toNat (.occupied v g), next, s.size + 1⟩ := by
  obtain ⟨l, hl, hnodup, hmem⟩ := h.chain
  rw [hfree] at hl
  cases hl with
  | @cons _ next' g' l hn' hl =>
  cases hn.symm.trans hn'
  obtain ⟨hnot, hnodup⟩ := List.nodup_cons.1 hnodup
  obtain ⟨hlt, -⟩ := Array.getElem?_eq_some_iff.1 hn
  have hslots : ∀ m : UInt32, m ≠ n →
      (s.slots.setIfInBounds n.toNat (.occupied v g))[m.toNat]? = s.slots[m.toNat]? :=
    fun m hm => Array.getElem?_setIfInBounds_ne fun he => hm (UInt32.toNat_inj.1 he).symm
  refine ⟨⟨l, ?_, hnodup, fun m => ?_⟩, ?_, by simpa using h.bound⟩
  · refine hl.congr fun m hm => hslots m ?_
    rintro rfl
    exact hnot hm
  · by_cases hm : m = n
    · subst hm
      refine iff_of_false hnot ?_
      rintro ⟨next', g', hm⟩
      rw [Array.getElem?_setIfInBounds_self_of_lt hlt] at hm
      cases hm
    · rw [vacant_congr (hslots m hm), ← hmem, List.mem_cons, or_iff_right hm]
  · dsimp only
    rw [h.size]
    exact (countP_setIfInBounds (.occupied v g) hn).symm

/-- A new slot is in use, as all that there were. -/
theorem pushed (h : s.Linked) (v : α) (hfree : s.free = none) (hlt : s.slots.size < capacity) :
    Linked ⟨arena, s.slots.push (.occupied v 0), none, s.size + 1⟩ := by
  refine ⟨⟨[], .nil, List.nodup_nil, fun n => iff_of_false List.not_mem_nil ?_⟩, ?_, ?_⟩
  · rintro ⟨next, g, hn⟩
    rcases Array.mem_push.1 (Array.mem_of_getElem? hn) with hslot | hslot
    · cases h.isOccupied_of_free hfree _ hslot
    · cases hslot
  · rw [Array.countP_push, ← h.size]
    rfl
  · rw [Array.size_push]
    exact hlt

theorem insert (h : s.Linked) (v : α) : (s.insert v).2.Linked := by
  rcases h.insert_cases v with ⟨n, next, g, hfree, hn, he⟩ | ⟨hfree, hlt, he⟩ | ⟨-, -, he⟩
  · rw [he]
    exact h.reused v hfree hn
  · rw [he]
    exact h.pushed v hfree hlt
  · rw [he]
    exact h

/-- Every operation keeps the invariant. -/
theorem apply (h : s.Linked) (o : Op α) : (o.apply s).Linked := by
  cases o with
  | insert v => exact h.insert v
  | remove i => exact h.remove i
  | set i v => exact h.set i v

end Linked

theorem linked_empty (arena : UInt32) : (empty arena : Slots α).Linked := by
  refine ⟨⟨[], .nil, List.nodup_nil, fun n => ?_⟩, rfl, Nat.zero_le _⟩
  refine iff_of_false (by simp) ?_
  rintro ⟨next, g, hn⟩
  simp [empty] at hn

theorem linked_after (arena : UInt32) (ops : List (Op α)) : (after arena ops).Linked := by
  induction ops using List.reverseRecOn with
  | nil => exact linked_empty arena
  | append_singleton ops o ih =>
    rw [after_snoc]
    exact ih.apply o

theorem get?_after (ops : List (Op α)) : ∀ i, (after arena ops).get? i = contents arena ops i := by
  induction ops using List.reverseRecOn with
  | nil => exact fun i => by simp [get?, empty, contents, played]
  | append_singleton ops o ih =>
    intro i
    rw [after_snoc, contents_snoc]
    exact get?_apply ih o i

/-! ## The number of slots -/

/-- An operation makes a slot only where all that there are hold a value. -/
theorem Linked.slots_size_apply (h : s.Linked) (o : Op α) :
    (o.apply s).slots.size = s.slots.size ∨
      (o.apply s).slots.size = (o.apply s).size ∧ s.slots.size ≤ (o.apply s).slots.size := by
  cases o with
  | insert v =>
    rw [Op.apply]
    rcases h.insert_cases v with ⟨n, next, g, -, -, he⟩ | ⟨hfree, -, he⟩ | ⟨-, -, he⟩
    · rw [he]
      exact .inl (by simp)
    · rw [he]
      refine .inr ⟨?_, ?_⟩
      · rw [Array.size_push, h.size_eq_of_free hfree]
      · rw [Array.size_push]
        exact Nat.le_succ _
    · rw [he]
      exact .inl rfl
  | remove i =>
    refine .inl ?_
    rw [Op.apply, Slots.remove]
    split <;> simp
  | set i v =>
    refine .inl ?_
    rw [Op.apply, Slots.set]
    split <;> simp

/-- There are as many slots as there have been values at one time, at most. -/
theorem isGreatest_slots_size (ops : List (Op α)) :
    IsGreatest {n | ∃ pre, pre <+: ops ∧ n = (after arena pre).size}
      (after arena ops).slots.size := by
  induction ops using List.reverseRecOn with
  | nil =>
    refine ⟨⟨[], List.prefix_rfl, rfl⟩, ?_⟩
    rintro n ⟨pre, hpre, rfl⟩
    rw [List.prefix_nil.1 hpre]
    rfl
  | append_singleton ops o ih =>
    obtain ⟨⟨pre, hpre, hsize⟩, hle⟩ := ih
    have hlinked := (linked_after arena ops).apply o
    have hcases := (linked_after arena ops).slots_size_apply o
    rw [← after_snoc] at hlinked hcases
    refine ⟨?_, ?_⟩
    · rcases hcases with h | ⟨h, -⟩
      · exact ⟨pre, hpre.trans (List.prefix_append _ _), h.trans hsize⟩
      · exact ⟨_, List.prefix_rfl, h⟩
    · rintro n ⟨pre', hpre', rfl⟩
      rcases List.prefix_concat_iff.1 hpre' with rfl | hpre'
      · exact hlinked.size_le
      · have hpast := hle ⟨pre', hpre', rfl⟩
        omega

/-! ## Generations -/

/-- Whether an operation vacates a slot. -/
def Op.vacates : Op α → Slots α → UInt32 → Bool
  | remove i, s, n => i.slot == n && (s.get? i).isSome
  | insert _, _, _ | set _ _, _, _ => false

/-- How often operations on a store vacate a slot. -/
def vacated (n : UInt32) : Slots α → List (Op α) → Nat
  | _, [] => 0
  | s, o :: ops => (o.vacates s n).toNat + vacated n (o.apply s) ops

theorem generation?_apply (o : Op α) {g : UInt32} (hg : s.generation? n = some g) :
    (o.apply s).generation? n = some (g + UInt32.ofNat (o.vacates s n).toNat) := by
  cases o with
  | insert v =>
    rw [Op.apply]
    rcases hs : s.insert v with ⟨_ | i, s'⟩
    · rw [insert_none hs, hg]
      simp [Op.vacates]
    · rw [(insert_some hs).generation n g hg]
      simp [Op.vacates]
  | remove i =>
    rw [Op.apply, Op.vacates]
    rcases hi : s.get? i with _ | u
    · rw [remove_of_none hi, hg]
      simp
    · rw [generation?_remove hi]
      by_cases hn : n = i.slot
      · subst hn
        rw [generation?_of_get? hi] at hg
        cases hg
        simp
      · rw [if_neg hn, hg, beq_eq_false_iff_ne.2 (Ne.symm hn)]
        simp
  | set i v =>
    rw [Op.apply, generation?_set, hg]
    simp [Op.vacates]

/-- The generation of a slot counts how often it was vacated, up to wrapping around. -/
theorem generation?_foldl (ops : List (Op α)) : ∀ {s : Slots α} {g : UInt32},
    s.generation? n = some g → (ops.foldl (fun s o => o.apply s) s).generation? n =
      some (g + UInt32.ofNat (vacated n s ops)) := by
  induction ops with
  | nil =>
    intro s g hg
    simpa [vacated] using hg
  | cons o ops ih =>
    intro s g hg
    rw [List.foldl_cons, ih (generation?_apply o hg), vacated, UInt32.ofNat_add, UInt32.add_assoc]

theorem after_append (pre ops : List (Op α)) :
    after arena (pre ++ ops) = ops.foldl (fun s o => o.apply s) (after arena pre) := by
  induction ops using List.reverseRecOn with
  | nil => simp
  | append_singleton ops o ih =>
    rw [← List.append_assoc, after_snoc, ih, List.foldl_append]
    rfl

theorem arena_after (ops : List (Op α)) : (after arena ops).arena = arena := by
  induction ops using List.reverseRecOn with
  | nil => rfl
  | append_singleton ops o ih =>
    rw [after_snoc]
    cases o with
    | insert v =>
      rw [Op.apply]
      rcases hs : (after arena ops).insert v with ⟨_ | i, s'⟩
      · rw [insert_none hs, ih]
      · rw [(insert_some hs).arena, ih]
    | remove i => rw [Op.apply, arena_remove, ih]
    | set i v => rw [Op.apply, arena_set, ih]

/-- An index that was alive, and was taken out since, has had its slot vacated. -/
theorem vacated_pos {ops : List (Op α)} (hmem : .remove i ∈ ops) : ∀ {s : Slots α},
    (s.get? i).isSome → 0 < vacated i.slot s ops := by
  induction ops with
  | nil => cases hmem
  | cons o ops ih =>
    intro s hi
    rw [vacated]
    by_cases ho : o = .remove i
    · subst ho
      simp only [Op.vacates, hi, beq_self_eq_true, Bool.and_self, Bool.toNat_true]
      exact Nat.lt_of_lt_of_le Nat.zero_lt_one (Nat.le_add_right _ _)
    · have hmem' := (List.mem_cons.1 hmem).resolve_left fun h => ho h.symm
      have halive := isSome_apply (o := o) (fun j hj => by rintro rfl; exact ho hj) hi
      exact Nat.lt_of_lt_of_le (ih hmem' halive) (Nat.le_add_left _ _)

theorem ofNat_eq_zero_iff (m : Nat) : UInt32.ofNat m = 0 ↔ 2 ^ 32 ∣ m := by
  rw [← UInt32.toNat_inj, UInt32.toNat_ofNat', Nat.dvd_iff_mod_eq_zero]
  rfl

/-- An index that was alive is so again if and only if its slot is in use and was vacated a
    multiple of 2^32 times since. -/
theorem isSome_get?_after_iff {pre since : List (Op α)}
    (hi : ((after arena pre).get? i).isSome) :
    ((after arena (pre ++ since)).get? i).isSome ↔
      (after arena (pre ++ since)).isOccupied i.slot = true ∧
        2 ^ 32 ∣ vacated i.slot (after arena pre) since := by
  obtain ⟨harena, -, hg⟩ := isSome_get?_iff.1 hi
  have hgeneration := generation?_foldl since hg
  rw [← after_append] at hgeneration
  rw [isSome_get?_iff, hgeneration, arena_after, harena, arena_after, ← ofNat_eq_zero_iff,
    Option.some.injEq, UInt32.add_eq_left]
  simp

/-! ## The map -/

/-- What is known of a store that was empty, after some operations. -/
structure FiniteMap (arena : UInt32) (ops : List (Op α)) : Prop where
  /-- It answers as the map from the indices that it has issued, and that were not taken
      out since, to their last values. -/
  get? : ∀ i, (after arena ops).get? i = contents arena ops i
  /-- Any other index does nothing. -/
  idle : ∀ i, contents arena ops i = none →
    (after arena ops).remove i = after arena ops ∧ ∀ v, (after arena ops).set i v = after arena ops
  /-- An index is issued only where it finds nothing. -/
  fresh : ∀ v i, ((after arena ops).insert v).1 = some i → contents arena ops i = none
  /-- None is issued only where all slots that can be are in use. -/
  full : ∀ v, ((after arena ops).insert v).1 = none ↔ (after arena ops).size = capacity
  /-- The links lead to each free slot once, to no other, and end. -/
  chain : ∃ l, (after arena ops).Chain (after arena ops).free l ∧ l.Nodup ∧
    ∀ n, n ∈ l ↔ (after arena ops).Vacant n
  /-- Every slot has a number. -/
  bound : (after arena ops).slots.size ≤ capacity
  size : (after arena ops).size = (after arena ops).slots.countP (·.isOccupied)
  size_pos : ∀ i, (contents arena ops i).isSome → 0 < (after arena ops).size
  /-- There are as many slots as there were values at one time, at most. -/
  slots_size : IsGreatest {n | ∃ pre, pre <+: ops ∧ n = (after arena pre).size}
    (after arena ops).slots.size
  /-- An index that was issued and taken out finds a value again when its slot is in use and
      was vacated, since the index was issued, a positive multiple of 2^32 times. -/
  again : ∀ pre v since i, ops = pre ++ [.insert v] ++ since →
    ((after arena pre).insert v).1 = some i → .remove i ∈ since →
    (((after arena ops).get? i).isSome ↔ (after arena ops).isOccupied i.slot = true ∧
      ∃ m, 0 < m ∧ vacated i.slot (after arena (pre ++ [.insert v])) since = m * 2 ^ 32)

/-- A store is a finite map, and it uses its slots again without mixing up their values,
    whatever operations it goes through. -/
theorem finite_map (arena : UInt32) (ops : List (Op α)) : FiniteMap arena ops where
  get? := get?_after ops
  idle i hi := by
    rw [← get?_after] at hi
    exact ⟨remove_of_none hi, fun v => set_of_none hi⟩
  fresh v i hi := by
    rw [← get?_after]
    exact (insert_some (Prod.ext hi rfl)).fresh
  full := (linked_after arena ops).insert_eq_none_iff
  chain := (linked_after arena ops).chain
  bound := (linked_after arena ops).bound
  size := (linked_after arena ops).size
  size_pos i hi := by
    obtain ⟨v, hv⟩ := Option.isSome_iff_exists.1 hi
    rw [← get?_after] at hv
    exact (linked_after arena ops).size_pos hv
  slots_size := isGreatest_slots_size ops
  again := by
    rintro pre v since i rfl hi hremove
    have halive : ((after arena (pre ++ [.insert v])).get? i).isSome := by
      rw [after_snoc, Op.apply, (insert_some (Prod.ext hi rfl)).self]
      rfl
    have hpos := vacated_pos hremove halive
    rw [isSome_get?_after_iff halive]
    refine and_congr_right fun _ => ?_
    constructor
    · rintro ⟨m, hm⟩
      refine ⟨m, ?_, by rw [hm, Nat.mul_comm]⟩
      exact Nat.pos_of_ne_zero fun h0 => by simp [hm, h0] at hpos
    · rintro ⟨m, -, hm⟩
      exact ⟨m, by rw [hm, Nat.mul_comm]⟩

end ScopedResources.Slots
