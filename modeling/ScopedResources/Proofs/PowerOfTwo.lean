/-
  The least power of two, computed in words.

  The exponent of the power is the upper logarithm.  As long as the power fits in a word it is
  what is computed, and no step on the way there wraps around; for `0`, and where the power
  does not fit, the answer is `0`.

  * `LeastPower`: a number is the least power of two not below another; `leastPower_iff` says
    so by a bound.
  * `toNat_bitsBelow_add_one`, `next?_eq_none_iff`, `toNat_next`: the steps of the computation.
  * `Exact`: none of them wraps around.
  * `next_least`: what is computed, for every word.
-/
import Mathlib.Algebra.Group.Nat.Defs
import Mathlib.Data.Nat.Log
import ScopedResources.PowerOfTwo

namespace ScopedResources.PowerOfTwo

variable {a b r e : ℕ} {m n : UInt64}

/-! ## The power -/

/-- `r` is the least power of two that is not below `a`. -/
structure LeastPower (a r : ℕ) : Prop where
  power : ∃ e, r = 2 ^ e
  le : a ≤ r
  least : ∀ e, 2 ^ e < r → 2 ^ e < a

theorem leastPower_clog (a : ℕ) : LeastPower a (2 ^ Nat.clog 2 a) where
  power := ⟨_, rfl⟩
  le := Nat.le_pow_clog Nat.one_lt_two a
  least _ he := Nat.pow_lt_of_lt_clog ((Nat.pow_lt_pow_iff_right Nat.one_lt_two).1 he)

/-- Of the powers of two that are not below `a`, the least is the only one below `2 * a`. -/
theorem leastPower_iff (ha : 0 < a) : LeastPower a r ↔ (∃ e, r = 2 ^ e) ∧ a ≤ r ∧ r < 2 * a := by
  constructor
  · intro h
    obtain ⟨e, rfl⟩ := h.power
    refine ⟨⟨e, rfl⟩, h.le, ?_⟩
    rcases e with _ | e
    · omega
    · -- half of it is a power of two as well, and so below `a`
      have hhalf : 2 ^ e < a := h.least e (Nat.pow_lt_pow_right Nat.one_lt_two (Nat.lt_succ_self e))
      rw [Nat.pow_succ]
      omega
  · rintro ⟨⟨k, rfl⟩, hle, hlt⟩
    refine ⟨⟨k, rfl⟩, hle, fun e he => ?_⟩
    have hdouble : 2 ^ (e + 1) ≤ 2 ^ k :=
      Nat.pow_le_pow_right Nat.two_pos ((Nat.pow_lt_pow_iff_right Nat.one_lt_two).1 he)
    rw [Nat.pow_succ] at hdouble
    omega

theorem LeastPower.le_of_le {s : ℕ} (hr : LeastPower a r) (hs : LeastPower b s) (hab : a ≤ b) :
    r ≤ s := by
  obtain ⟨e, rfl⟩ := hs.power
  by_contra hlt
  have hbelow := hr.least e (Nat.lt_of_not_le hlt)
  have hle := hs.le
  omega

theorem LeastPower.eq {s : ℕ} (hr : LeastPower a r) (hs : LeastPower a s) : r = s :=
  Nat.le_antisymm (hr.le_of_le hs (Nat.le_refl a)) (hs.le_of_le hr (Nat.le_refl a))

/-- The exponent is one more than the position of the highest bit of what comes before. -/
theorem clog_two_eq (ha : 1 < a) : Nat.clog 2 a = (a - 1).log2 + 1 := by
  refine Nat.le_antisymm (Nat.clog_le_of_le_pow ?_) ?_
  · have hlt : a - 1 < 2 ^ ((a - 1).log2 + 1) := Nat.lt_log2_self
    omega
  · have hle : 2 ^ (a - 1).log2 ≤ a - 1 := Nat.log2_self_le (by omega)
    exact (Nat.lt_clog_iff_pow_lt Nat.one_lt_two).2 (by omega)

/-- A power of two fits in a word if it is not above `2 ^ 63`. -/
theorem clog_lt_iff : Nat.clog 2 a < 64 ↔ a ≤ 2 ^ 63 := by
  rw [Nat.lt_succ_iff, Nat.clog_le_iff_le_pow Nat.one_lt_two]

/-! ## The steps -/

theorem toNat_pred (hn : 1 < n) : (n - 1).toNat + 1 = n.toNat := by
  have hn := UInt64.lt_iff_toNat_lt.1 hn
  rw [UInt64.toNat_sub_of_le n 1 (UInt64.le_iff_toNat_le.2 (Nat.le_of_lt hn))]
  exact Nat.sub_add_cancel (Nat.le_of_lt hn)

theorem log2_lt (n : UInt64) : n.toNat.log2 < 64 := by
  by_cases hn : n.toNat = 0
  · rw [hn]
    decide
  · exact (Nat.log2_lt hn).2 n.toNat_lt

/-- The word is shifted by less than its length. -/
theorem toNat_distance (n : UInt64) : (63 - n.log2).toNat + n.toNat.log2 = 63 := by
  have hle : n.toNat.log2 ≤ 63 := Nat.le_of_lt_succ (log2_lt n)
  have hlog : n.log2 ≤ 63 := UInt64.le_iff_toNat_le.2 hle
  rw [UInt64.toNat_sub_of_le 63 n.log2 hlog]
  exact Nat.sub_add_cancel hle

theorem toNat_allBits_shiftRight {d : UInt64} (hd : d.toNat < 64) :
    (allBits >>> d).toNat + 1 = 2 ^ (64 - d.toNat) := by
  have hpow : 2 ^ d.toNat * 2 ^ (64 - d.toNat) = 2 ^ 64 := by
    rw [← Nat.pow_add, Nat.add_sub_cancel' (Nat.le_of_lt hd)]
  have hall : allBits.toNat = 2 ^ d.toNat * 2 ^ (64 - d.toNat) - 1 := by
    rw [hpow]
    rfl
  rw [UInt64.toNat_shiftRight, Nat.mod_eq_of_lt hd, Nat.shiftRight_eq_div_pow, hall,
    Nat.mul_sub_div 0 _ _ (by rw [hpow]; decide), Nat.zero_div]
  exact Nat.sub_add_cancel (Nat.two_pow_pos _)

theorem toNat_bitsBelow_add_one (n : UInt64) :
    (bitsBelow n).toNat + 1 = 2 ^ Nat.clog 2 n.toNat := by
  unfold bitsBelow
  split
  · rename_i hn
    rw [Nat.clog_of_right_le_one (UInt64.le_iff_toNat_le.1 hn)]
    rfl
  · rename_i hn
    have hn := UInt64.not_le.1 hn
    have hpred := toNat_pred hn
    have hdistance := toNat_distance (n - 1)
    have hlog : (n - 1).toNat = n.toNat - 1 := by omega
    rw [toNat_allBits_shiftRight (by omega), clog_two_eq (UInt64.lt_iff_toNat_lt.1 hn), ← hlog]
    congr 1
    omega

/-- All bits are taken where the power is `2 ^ 64`. -/
theorem bitsBelow_eq_allBits_iff : bitsBelow n = allBits ↔ 2 ^ 63 < n.toNat := by
  have hsucc := toNat_bitsBelow_add_one n
  have hle : Nat.clog 2 n.toNat ≤ 64 := Nat.clog_le_of_le_pow (Nat.le_of_lt n.toNat_lt)
  have hall : bitsBelow n = allBits ↔ 2 ^ Nat.clog 2 n.toNat = 2 ^ 64 := by
    rw [← UInt64.toNat_inj, ← hsucc]
    exact Nat.succ_inj.symm
  rw [hall, Nat.pow_right_inj (Nat.le_refl 2), ← Nat.not_le, ← clog_lt_iff]
  omega

theorem next?_eq_none_iff : next? n = none ↔ 2 ^ 63 < n.toNat := by
  rw [next?, ← bitsBelow_eq_allBits_iff]
  simp

/-- The last step is made only where the result fits. -/
theorem toNat_of_next? {p : UInt64} (h : next? n = some p) :
    p.toNat = (bitsBelow n).toNat + 1 := by
  rw [next?] at h
  split at h
  · cases h
  · rename_i hne
    cases h
    have hlt := (bitsBelow n).toNat_lt
    have hne : (bitsBelow n).toNat ≠ 2 ^ 64 - 1 := fun h => hne (UInt64.toNat_inj.1 h)
    rw [UInt64.toNat_add, Nat.mod_eq_of_lt]
    · rfl
    · show _ + 1 < 2 ^ 64
      omega

theorem toNat_next (hn : n ≠ 0) (hle : n.toNat ≤ 2 ^ 63) :
    (next n).toNat = 2 ^ Nat.clog 2 n.toNat := by
  rcases hp : next? n with _ | p
  · exact absurd (next?_eq_none_iff.1 hp) (Nat.not_lt.2 hle)
  · rw [next, if_neg hn, hp, Option.getD_some, toNat_of_next? hp, toNat_bitsBelow_add_one]

theorem next_eq_zero_iff : next n = 0 ↔ n = 0 ∨ 2 ^ 63 < n.toNat := by
  constructor
  · intro h
    by_contra hnot
    rw [not_or, Nat.not_lt] at hnot
    have hpow := toNat_next hnot.1 hnot.2
    rw [h] at hpow
    exact absurd hpow.symm (Nat.two_pow_pos _).ne'
  · rintro (rfl | h)
    · rfl
    · rw [next, next?_eq_none_iff.2 h]
      split <;> rfl

theorem leastPower_next (h : next n ≠ 0) : LeastPower n.toNat (next n).toNat := by
  rw [ne_eq, next_eq_zero_iff, not_or, Nat.not_lt] at h
  rw [toNat_next h.1 h.2]
  exact leastPower_clog n.toNat

theorem next_ne_zero (hn : n ≠ 0) (hle : n.toNat ≤ 2 ^ 63) : next n ≠ 0 := by
  rw [ne_eq, next_eq_zero_iff, not_or, Nat.not_lt]
  exact ⟨hn, hle⟩

theorem toNat_pos (hn : n ≠ 0) : 0 < n.toNat :=
  Nat.pos_of_ne_zero fun h => hn (UInt64.toNat_inj.1 h)

theorem ne_zero_of_power (he : n.toNat = 2 ^ e) : n ≠ 0 := by
  rintro rfl
  exact (Nat.two_pow_pos e).ne he

theorem le_of_power (he : n.toNat = 2 ^ e) : n.toNat ≤ 2 ^ 63 := by
  have hlt : 2 ^ e < 2 ^ 64 := he ▸ n.toNat_lt
  have hle : e ≤ 63 := Nat.le_of_lt_succ ((Nat.pow_lt_pow_iff_right Nat.one_lt_two).1 hlt)
  exact he ▸ Nat.pow_le_pow_right Nat.two_pos hle

/-- A word that is a power of two is the answer for itself. -/
theorem next_of_power (he : n.toNat = 2 ^ e) : next n = n := by
  have hleast := leastPower_next (next_ne_zero (ne_zero_of_power he) (le_of_power he))
  have hself : LeastPower n.toNat n.toNat := ⟨⟨e, he⟩, Nat.le_refl _, fun _ h => h⟩
  exact UInt64.toNat_inj.1 (hleast.eq hself)

theorem next_next (n : UInt64) : next (next n) = next n := by
  by_cases h : next n = 0
  · rw [h]
    rfl
  · obtain ⟨e, he⟩ := (leastPower_next h).power
    exact next_of_power he

theorem eq_next_iff {p : UInt64} (hp : p.toNat = 2 ^ e) (hle : n ≤ p) :
    p = next n ↔ p.toNat < 2 * n.toNat := by
  have hle : n.toNat ≤ p.toNat := UInt64.le_iff_toNat_le.1 hle
  constructor
  · rintro rfl
    have hne := ne_zero_of_power hp
    have hn : n ≠ 0 := fun h => hne (next_eq_zero_iff.2 (.inl h))
    exact ((leastPower_iff (toNat_pos hn)).1 (leastPower_next hne)).2.2
  · intro hlt
    have hn : n ≠ 0 := by
      rintro rfl
      exact Nat.not_lt_zero _ hlt
    have hleast := leastPower_next (next_ne_zero hn (hle.trans (le_of_power hp)))
    have hself : LeastPower n.toNat p.toNat := (leastPower_iff (toNat_pos hn)).2 ⟨⟨e, hp⟩, hle, hlt⟩
    exact UInt64.toNat_inj.1 (hself.eq hleast)

theorem next_le_next (hm : m ≠ 0) (hmn : m ≤ n) (hn : n.toNat ≤ 2 ^ 63) : next m ≤ next n := by
  have hmn : m.toNat ≤ n.toNat := UInt64.le_iff_toNat_le.1 hmn
  have hne : n ≠ 0 := by
    rintro rfl
    exact Nat.not_le.2 (toNat_pos hm) hmn
  have hleast := leastPower_next (next_ne_zero hm (hmn.trans hn))
  have hleast' := leastPower_next (next_ne_zero hne hn)
  exact UInt64.le_iff_toNat_le.2 (hleast.le_of_le hleast' hmn)

/-! ## What is computed -/

/-- No step of the computation wraps around: each gives the number that it would give
    without a bound, and the word is shifted by less than its length. -/
structure Exact (n : UInt64) : Prop where
  predecessor : 1 < n → (n - 1).toNat + 1 = n.toNat
  distance : (63 - (n - 1).log2).toNat + (n - 1).log2.toNat = 63
  successor : ∀ p, next? n = some p → p.toNat = (bitsBelow n).toNat + 1

/-- What is computed for `n`. -/
structure NextPower (n : UInt64) : Prop where
  /-- There is no answer for `0` and above `2 ^ 63`. -/
  eq_zero_iff : next n = 0 ↔ n = 0 ∨ 2 ^ 63 < n.toNat
  least : next n ≠ 0 → LeastPower n.toNat (next n).toNat
  /-- Of the powers of two that are not below `n`, the answer is the one below `2 * n`. -/
  eq_iff : ∀ p e, p.toNat = 2 ^ e → n ≤ p → (p = next n ↔ p.toNat < 2 * n.toNat)
  idempotent : next (next n) = next n
  monotone : ∀ m, m ≠ 0 → m ≤ n → n.toNat ≤ 2 ^ 63 → next m ≤ next n
  exact : Exact n

/-- The least power of two that is not below a word is what is computed, if it fits. -/
theorem next_least (n : UInt64) : NextPower n where
  eq_zero_iff := next_eq_zero_iff
  least := leastPower_next
  eq_iff _ _ := eq_next_iff
  idempotent := next_next n
  monotone _ := next_le_next
  exact := ⟨toNat_pred, toNat_distance (n - 1), fun _ => toNat_of_next?⟩

example : next 4097 = 8192 ∧ next 0x8000000000000001 = 0 := by decide

end ScopedResources.PowerOfTwo
