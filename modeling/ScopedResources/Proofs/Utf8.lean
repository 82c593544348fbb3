/-
  Octets and texts.

  The octets of a text are read back as the text, and what is read as a text are
  its octets, so a byte string is well-formed if and only if it is the octets of
  some text.

  * `Utf8.Taken` are the octets of one character, by their ranges; the machine
    that reads takes them (`Taken.scanFrom`) and no others (`exists_taken`), and
    they are what is written for the character (`Taken.encodeChar_eq`).
  * `Utf8.decode?_eq_some_iff`: reading is the inverse of writing.
  * `Utf8.decode?_eq_none_iff`: what cannot be read are the octets of no text.
-/
import Mathlib.Data.List.Basic
import ScopedResources.Text.Utf8

namespace ScopedResources.Utf8

/-! ## The octets of a character -/

/-- An octet after the first one. -/
def Tail (b : UInt8) : Prop :=
  0x80 ≤ b.toNat ∧ b.toNat ≤ 0xBF

/-- The octets that stand for a character, and the character's number. -/
inductive Taken : Bytes → Nat → Prop
  | one {a : UInt8} : a.toNat < 0x80 → Taken [a] a.toNat
  | two {a b : UInt8} : 0xC2 ≤ a.toNat → a.toNat < 0xE0 → Tail b →
    Taken [a, b] ((a.toNat - 0xC0) * 0x40 + (b.toNat - 0x80))
  | three {a b c : UInt8} : 0xE0 ≤ a.toNat → a.toNat < 0xF0 → Tail b →
    (a.toNat = 0xE0 → 0xA0 ≤ b.toNat) → (a.toNat = 0xED → b.toNat ≤ 0x9F) → Tail c →
    Taken [a, b, c] (((a.toNat - 0xE0) * 0x40 + (b.toNat - 0x80)) * 0x40 + (c.toNat - 0x80))
  | four {a b c d : UInt8} : 0xF0 ≤ a.toNat → a.toNat < 0xF5 → Tail b →
    (a.toNat = 0xF0 → 0x90 ≤ b.toNat) → (a.toNat = 0xF4 → b.toNat ≤ 0x8F) → Tail c → Tail d →
    Taken [a, b, c, d] ((((a.toNat - 0xF0) * 0x40 + (b.toNat - 0x80)) * 0x40 +
      (c.toNat - 0x80)) * 0x40 + (d.toNat - 0x80))

variable {bytes rest : Bytes} {a b : UInt8} {q : Awaiting} {n : Nat}

theorem Taken.valid (h : Taken bytes n) : n.isValidChar := by
  cases h <;> simp only [Tail, Nat.isValidChar] at * <;> omega

theorem toNat_ofNat (h : n.isValidChar) : (Char.ofNat n).toNat = n := by
  rw [Char.ofNat, dif_pos h]
  exact UInt32.toNat_ofNatLT

theorem octet_eq (h : n = a.toNat) : UInt8.ofNat n = a := by
  rw [h, UInt8.ofNat_toNat]

theorem toNat_octet (h : n < 256) : (UInt8.ofNat n).toNat = n :=
  UInt8.toNat_ofNat_of_lt' h

/-- What is taken for a character is what is written for it. -/
theorem Taken.encodeChar_eq (h : Taken bytes n) : encodeChar (Char.ofNat n) = bytes := by
  unfold encodeChar
  rw [toNat_ofNat h.valid]
  dsimp only
  cases h with
  | one ha => rw [if_pos ha, UInt8.ofNat_toNat]
  | two ha ha' hb =>
    simp only [Tail] at hb
    rw [if_neg (by omega), if_pos (by omega)]
    simp only [List.cons.injEq, and_true]
    exact ⟨octet_eq (by omega), octet_eq (by omega)⟩
  | three ha ha' hb hb₁ hb₂ hc =>
    simp only [Tail] at hb hc
    rw [if_neg (by omega), if_neg (by omega), if_pos (by omega)]
    simp only [List.cons.injEq, and_true]
    exact ⟨octet_eq (by omega), octet_eq (by omega), octet_eq (by omega)⟩
  | four ha ha' hb hb₁ hb₂ hc hd =>
    simp only [Tail] at hb hc hd
    rw [if_neg (by omega), if_neg (by omega), if_neg (by omega)]
    simp only [List.cons.injEq, and_true]
    exact ⟨octet_eq (by omega), octet_eq (by omega), octet_eq (by omega), octet_eq (by omega)⟩

/-- What is written for a character can be taken for it. -/
theorem taken_encodeChar (ch : Char) : Taken (encodeChar ch) ch.toNat := by
  have hvalid : ch.toNat < 0xD800 ∨ 0xDFFF < ch.toNat ∧ ch.toNat < 0x110000 := ch.valid
  unfold encodeChar
  dsimp only
  split
  · rename_i h
    have h0 := toNat_octet (n := ch.toNat) (by omega)
    have htaken := Taken.one (a := UInt8.ofNat ch.toNat) (by omega)
    rwa [h0] at htaken
  split
  · have h0 := toNat_octet (n := 0xC0 + ch.toNat / 0x40) (by omega)
    have h1 := toNat_octet (n := 0x80 + ch.toNat % 0x40) (by omega)
    have htaken := Taken.two (a := UInt8.ofNat (0xC0 + ch.toNat / 0x40))
      (b := UInt8.ofNat (0x80 + ch.toNat % 0x40)) (by omega) (by omega) ⟨by omega, by omega⟩
    rwa [h0, h1, show (0xC0 + ch.toNat / 0x40 - 0xC0) * 0x40 +
      (0x80 + ch.toNat % 0x40 - 0x80) = ch.toNat by omega] at htaken
  split
  · have h0 := toNat_octet (n := 0xE0 + ch.toNat / 0x1000) (by omega)
    have h1 := toNat_octet (n := 0x80 + ch.toNat / 0x40 % 0x40) (by omega)
    have h2 := toNat_octet (n := 0x80 + ch.toNat % 0x40) (by omega)
    have htaken := Taken.three (a := UInt8.ofNat (0xE0 + ch.toNat / 0x1000))
      (b := UInt8.ofNat (0x80 + ch.toNat / 0x40 % 0x40)) (c := UInt8.ofNat (0x80 + ch.toNat % 0x40))
      (by omega) (by omega) ⟨by omega, by omega⟩ (by omega) (by omega) ⟨by omega, by omega⟩
    rwa [h0, h1, h2, show ((0xE0 + ch.toNat / 0x1000 - 0xE0) * 0x40 +
      (0x80 + ch.toNat / 0x40 % 0x40 - 0x80)) * 0x40 + (0x80 + ch.toNat % 0x40 - 0x80) =
        ch.toNat by omega] at htaken
  · have h0 := toNat_octet (n := 0xF0 + ch.toNat / 0x40000) (by omega)
    have h1 := toNat_octet (n := 0x80 + ch.toNat / 0x1000 % 0x40) (by omega)
    have h2 := toNat_octet (n := 0x80 + ch.toNat / 0x40 % 0x40) (by omega)
    have h3 := toNat_octet (n := 0x80 + ch.toNat % 0x40) (by omega)
    have htaken := Taken.four (a := UInt8.ofNat (0xF0 + ch.toNat / 0x40000))
      (b := UInt8.ofNat (0x80 + ch.toNat / 0x1000 % 0x40))
      (c := UInt8.ofNat (0x80 + ch.toNat / 0x40 % 0x40)) (d := UInt8.ofNat (0x80 + ch.toNat % 0x40))
      (by omega) (by omega) ⟨by omega, by omega⟩ (by omega) (by omega) ⟨by omega, by omega⟩
      ⟨by omega, by omega⟩
    rwa [h0, h1, h2, h3, show (((0xF0 + ch.toNat / 0x40000 - 0xF0) * 0x40 +
      (0x80 + ch.toNat / 0x1000 % 0x40 - 0x80)) * 0x40 + (0x80 + ch.toNat / 0x40 % 0x40 - 0x80)) *
        0x40 + (0x80 + ch.toNat % 0x40 - 0x80) = ch.toNat by omega] at htaken

/-! ## The machine -/

/-- The last octet of a character, in its range. -/
theorem scanFrom_last {low high value : Nat} (h : low ≤ b.toNat ∧ b.toNat ≤ high) :
    scanFrom (some ⟨1, low, high, value⟩) (b :: rest) =
      some (Char.ofNat (value * 0x40 + (b.toNat - 0x80))) :: scanFrom none rest := by
  rw [scanFrom, Awaiting.accept, if_pos h]
  rfl

/-- An octet in its range that is not the last one. -/
theorem scanFrom_more {owed low high value : Nat} (h : low ≤ b.toNat ∧ b.toNat ≤ high) :
    scanFrom (some ⟨owed + 2, low, high, value⟩) (b :: rest) =
      scanFrom (some ⟨owed + 1, 0x80, 0xBF, value * 0x40 + (b.toNat - 0x80)⟩) rest := by
  rw [scanFrom, Awaiting.accept, if_pos h]
  dsimp only
  rw [if_neg (by omega)]
  rfl

/-- A machine that owes octets and meets no fault goes on from one in its range. -/
theorem exists_of_scanFrom_some {cs : List Char} (h : scanFrom (some q) bytes = cs.map some) :
    ∃ b rest, bytes = b :: rest ∧ q.low ≤ b.toNat ∧ b.toNat ≤ q.high := by
  cases bytes with
  | nil => cases cs <;> simp [scanFrom] at h
  | cons b rest =>
    refine ⟨b, rest, rfl, ?_⟩
    by_contra hrange
    have hrefused : q.accept b.toNat = .refused := by rw [Awaiting.accept, if_neg hrange]
    rw [scanFrom, hrefused] at h
    dsimp only at h
    cases cs <;> split at h <;> simp at h

/-- The octets of a character are read as the character. -/
theorem Taken.scanFrom (h : Taken bytes n) (rest : Bytes) :
    scanFrom none (bytes ++ rest) = some (Char.ofNat n) :: scanFrom none rest := by
  cases h with
  | one ha => rw [List.singleton_append, Utf8.scanFrom, start, if_pos ha]
  | two ha ha' hb =>
    simp only [List.cons_append, List.nil_append]
    rw [Utf8.scanFrom, start, if_neg (by omega), if_neg (by omega), if_pos (by omega)]
    dsimp only
    rw [scanFrom_last hb]
  | three ha ha' hb hb₁ hb₂ hc =>
    simp only [List.cons_append, List.nil_append]
    rw [Utf8.scanFrom, start, if_neg (by omega), if_neg (by omega), if_neg (by omega),
      if_pos (by omega)]
    dsimp only
    simp only [Tail] at hb
    rw [scanFrom_more (by constructor <;> split <;> omega), scanFrom_last hc]
  | four ha ha' hb hb₁ hb₂ hc hd =>
    simp only [List.cons_append, List.nil_append]
    rw [Utf8.scanFrom, start, if_neg (by omega), if_neg (by omega), if_neg (by omega),
      if_neg (by omega), if_pos (by omega)]
    dsimp only
    simp only [Tail] at hb
    rw [scanFrom_more (by constructor <;> split <;> omega), scanFrom_more hc, scanFrom_last hd]

/-- What is read without a fault begins with the octets of a character. -/
theorem exists_taken {cs : List Char} (h : Utf8.scanFrom none (a :: rest) = cs.map some) :
    ∃ bytes n more, a :: rest = bytes ++ more ∧ Taken bytes n := by
  rw [Utf8.scanFrom] at h
  by_cases h₁ : a.toNat < 0x80
  · exact ⟨[a], _, rest, rfl, .one h₁⟩
  by_cases h₂ : a.toNat < 0xC2
  · rw [start, if_neg h₁, if_pos h₂] at h
    cases cs <;> simp at h
  by_cases h₃ : a.toNat < 0xE0
  · rw [start, if_neg h₁, if_neg h₂, if_pos h₃] at h
    obtain ⟨b, more, rfl, hb⟩ := exists_of_scanFrom_some h
    exact ⟨[a, b], _, more, rfl, .two (by omega) h₃ hb⟩
  by_cases h₄ : a.toNat < 0xF0
  · rw [start, if_neg h₁, if_neg h₂, if_neg h₃, if_pos h₄] at h
    dsimp only at h
    obtain ⟨b, more, rfl, hb⟩ := exists_of_scanFrom_some h
    rw [scanFrom_more hb] at h
    obtain ⟨c, more, rfl, hc⟩ := exists_of_scanFrom_some h
    dsimp only at hb
    refine ⟨[a, b, c], _, more, rfl, .three (by omega) h₄ ⟨?_, ?_⟩ ?_ ?_ hc⟩
    all_goals
      revert hb
      split <;> split <;> omega
  by_cases h₅ : a.toNat < 0xF5
  · rw [start, if_neg h₁, if_neg h₂, if_neg h₃, if_neg h₄, if_pos h₅] at h
    dsimp only at h
    obtain ⟨b, more, rfl, hb⟩ := exists_of_scanFrom_some h
    rw [scanFrom_more hb] at h
    obtain ⟨c, more, rfl, hc⟩ := exists_of_scanFrom_some h
    rw [scanFrom_more hc] at h
    obtain ⟨d, more, rfl, hd⟩ := exists_of_scanFrom_some h
    dsimp only at hb
    refine ⟨[a, b, c, d], _, more, rfl, .four (by omega) h₅ ⟨?_, ?_⟩ ?_ ?_ hc hd⟩
    all_goals
      revert hb
      split <;> split <;> omega
  · rw [start, if_neg h₁, if_neg h₂, if_neg h₃, if_neg h₄, if_neg h₅] at h
    cases cs <;> simp at h

/-! ## Texts -/

theorem scanFrom_flatMap : ∀ cs : List Char, scanFrom none (cs.flatMap encodeChar) = cs.map some
  | [] => rfl
  | ch :: cs => by
    rw [List.flatMap_cons, (taken_encodeChar ch).scanFrom, Char.ofNat_toNat, scanFrom_flatMap cs,
      List.map_cons]

theorem flatMap_of_scanFrom {bytes : Bytes} {cs : List Char}
    (h : scanFrom none bytes = cs.map some) : cs.flatMap encodeChar = bytes := by
  cases bytes with
  | nil =>
    cases cs with
    | nil => rfl
    | cons => simp [scanFrom] at h
  | cons a rest =>
    obtain ⟨taken, n, more, heq, htaken⟩ := exists_taken h
    have hshorter : more.length < (a :: rest).length := by
      have hlen := congrArg List.length heq
      rw [List.length_append] at hlen
      have hpos : 0 < taken.length := by cases htaken <;> simp
      omega
    rw [heq, htaken.scanFrom] at h
    cases cs with
    | nil => simp at h
    | cons ch cs =>
      rw [List.map_cons, List.cons.injEq, Option.some.injEq] at h
      rw [List.flatMap_cons, ← h.1, htaken.encodeChar_eq, flatMap_of_scanFrom h.2, heq]
termination_by bytes.length

theorem mapM_id_eq_some_iff {α : Type} : ∀ {l : List (Option α)} {cs : List α},
    l.mapM id = some cs ↔ l = cs.map some
  | [], cs => by cases cs <;> simp
  | x :: l, cs => by
    simp only [List.mapM_cons, id, Option.bind_eq_bind, Option.bind_eq_some_iff, Option.pure_def,
      Option.some.injEq]
    constructor
    · rintro ⟨y, rfl, ys, hys, rfl⟩
      rw [List.map_cons, mapM_id_eq_some_iff.1 hys]
    · intro h
      cases cs with
      | nil => cases h
      | cons y ys =>
        rw [List.map_cons, List.cons.injEq] at h
        exact ⟨y, h.1, ys, mapM_id_eq_some_iff.2 h.2, rfl⟩

/-- Reading octets is the inverse of writing a text. -/
theorem decode?_eq_some_iff {s : String} : decode? bytes = some s ↔ encode s = bytes := by
  simp only [decode?, scan, encode, Option.map_eq_some_iff, mapM_id_eq_some_iff]
  constructor
  · rintro ⟨cs, hcs, rfl⟩
    rw [String.toList_ofList]
    exact flatMap_of_scanFrom hcs
  · rintro rfl
    exact ⟨s.toList, scanFrom_flatMap _, String.ofList_toList⟩

theorem decode?_encode (s : String) : decode? (encode s) = some s :=
  decode?_eq_some_iff.2 rfl

/-- What cannot be read are the octets of no text. -/
theorem decode?_eq_none_iff : decode? bytes = none ↔ ∀ s, encode s ≠ bytes := by
  simp only [Option.eq_none_iff_forall_ne_some, ne_eq, decode?_eq_some_iff]

end ScopedResources.Utf8
