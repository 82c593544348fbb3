/-
  How many descriptors can still be given out.

  The limit of a host is on the numbers of its descriptors, so what it leaves are the
  numbers below it that are not in use.  Each descriptor that is given out takes one of
  them, and none is given out when they are used up.

  * `Host.freeNumbers`, `Host.room`: these numbers, and how many they are.
  * `exhausted_iff`: no descriptor is given out where there is no room.
  * `room_place`, `room_installed`: giving out one takes one; `exec_openPipe_of_room`.
  * `limit_le_room_add`: there is room for the numbers that no descriptor has had so far.
-/
import Mathlib.Data.Finset.Card
import Mathlib.Data.Finset.Range
import ScopedResources.Proofs.Custody

namespace ScopedResources.Host

variable {h : Host} {n : Nat}

/-- The numbers below the limit that are not in use. -/
def freeNumbers (h : Host) : Finset Nat :=
  {n ∈ Finset.range h.limit | h.isOpen n = false}

/-- How many descriptors can still be given out. -/
def room (h : Host) : Nat := h.freeNumbers.card

theorem mem_freeNumbers_iff : n ∈ h.freeNumbers ↔ n < h.limit ∧ h.isOpen n = false := by
  rw [freeNumbers, Finset.mem_filter, Finset.mem_range]

theorem not_exhausted_iff : ¬ h.exhausted = true ↔ h.freeNumber < h.limit := by
  rw [exhausted, decide_eq_true_iff, Nat.not_le]

/-- All numbers below the lowest free one are in use. -/
theorem isOpen_of_lt_freeNumber (hn : n < h.freeNumber) : h.isOpen n = true := by
  have hlt : n < h.descriptors.size := Nat.lt_of_lt_of_le hn h.freeNumber_le
  have hused : (h.descriptors[n]).isNone = false := by
    rw [freeNumber] at hn
    rcases hi : h.descriptors.findIdx? (·.isNone) with _ | i <;> rw [hi] at hn
    · exact Array.findIdx?_eq_none_iff.1 hi _ (Array.getElem_mem hlt)
    · exact Bool.eq_false_iff.2 ((Array.findIdx?_eq_some_iff_getElem.1 hi).2.2 n hn)
  rw [isOpen, descriptor?, if_pos (by omega), Int.toNat_natCast, Array.getElem?_eq_getElem hlt]
  simpa [Option.isSome_iff_ne_none] using hused

theorem freeNumber_mem (hx : ¬ h.exhausted = true) : h.freeNumber ∈ h.freeNumbers :=
  mem_freeNumbers_iff.2 ⟨not_exhausted_iff.1 hx, Bool.not_eq_true _ ▸ h.not_isOpen_freeNumber⟩

theorem exhausted_iff : h.exhausted = true ↔ h.room = 0 := by
  constructor
  · intro hx
    rw [room, Finset.card_eq_zero, Finset.eq_empty_iff_forall_notMem]
    intro n hn
    obtain ⟨hlt, hfree⟩ := mem_freeNumbers_iff.1 hn
    rw [exhausted, decide_eq_true_iff] at hx
    rw [isOpen_of_lt_freeNumber (Nat.lt_of_lt_of_le hlt hx)] at hfree
    cases hfree
  · intro hroom
    by_contra hx
    exact (Finset.card_pos.2 ⟨_, freeNumber_mem hx⟩).ne' hroom

theorem room_pos_iff : 0 < h.room ↔ ¬ h.exhausted = true := by
  rw [exhausted_iff, Nat.pos_iff_ne_zero]

/-- A descriptor that is given out takes its number. -/
theorem room_place (hx : ¬ h.exhausted = true) (d : Descriptor) :
    (h.place h.freeNumber d).room + 1 = h.room := by
  have htaken : (h.place h.freeNumber d).freeNumbers = h.freeNumbers.erase h.freeNumber := by
    ext n
    have hlimit : (h.place h.freeNumber d).limit = h.limit := by
      unfold place
      split <;> rfl
    rw [Finset.mem_erase, mem_freeNumbers_iff, mem_freeNumbers_iff, hlimit, ← Bool.not_eq_true,
      isOpen_place_iff h d h.freeNumber_le, Int.natCast_inj, ← Bool.not_eq_true]
    tauto
  rw [room, htaken, Finset.card_erase_add_one (freeNumber_mem hx), room]

theorem room_installed (hx : ¬ h.exhausted = true) (file : OpenFile) :
    (h.installed file).room + 1 = h.room :=
  room_place (h := { h with openFiles := h.openFiles.push file }) hx _

/-- Where there is room for two, there is room for a second one. -/
theorem not_exhausted_installed (hroom : 2 ≤ h.room) (file : OpenFile) :
    ¬ (h.installed file).exhausted = true := by
  have hx : ¬ h.exhausted = true := room_pos_iff.1 (by omega)
  have htaken := room_installed hx file
  rw [← room_pos_iff]
  omega

/-- A pipe is opened where there is room for both of its ends. -/
theorem exec_openPipe_of_room (hroom : 2 ≤ h.room) :
    openPipe.exec h = (.ok (h.freeNumber, h.writeEnd), h.piping) := by
  have hx : ¬ h.exhausted = true := room_pos_iff.1 (by omega)
  have hhalf : ¬ h.halfPiping.exhausted = true :=
    not_exhausted_installed (h := { h with pipes := h.pipes.push .empty }) hroom _
  rw [exec_openPipe, if_neg (not_or.2 ⟨hx, hhalf⟩)]

theorem room_le_limit (h : Host) : h.room ≤ h.limit := by
  have hle := Finset.card_filter_le (Finset.range h.limit) fun n => h.isOpen n = false
  rwa [Finset.card_range] at hle

/-- There is room for the numbers that no descriptor has had so far. -/
theorem limit_le_room_add (h : Host) : h.limit ≤ h.room + h.descriptors.size := by
  have hsub : Finset.range h.limit \ Finset.range h.descriptors.size ⊆ h.freeNumbers := by
    intro n hn
    rw [Finset.mem_sdiff, Finset.mem_range, Finset.mem_range, Nat.not_lt] at hn
    refine mem_freeNumbers_iff.2 ⟨hn.1, ?_⟩
    rw [isOpen, descriptor?, if_pos (by omega), Int.toNat_natCast, Array.getElem?_eq_none hn.2]
    rfl
  have hle := (Finset.le_card_sdiff _ _).trans (Finset.card_le_card hsub)
  rw [Finset.card_range, Finset.card_range] at hle
  exact Nat.sub_le_iff_le_add.1 hle

end ScopedResources.Host
