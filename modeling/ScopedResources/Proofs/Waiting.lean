/-
  Releases that wait on their records.

  A release that was given to a record waits there until the record is torn
  down, and is due then.  No change loses a release or makes one of nothing:
  what waits after it and what it makes due is what waited before and what it
  was given.

  * `Release.outline`: the bytes of a block may be written while the block
    waits; the outline of a release is what stays.
  * `Tree.Outcome.balance`: a change keeps the balance in its tree.
  * `Tree.Outcome.record?_of_waiting`: when a release that waits becomes due.
  * `Ledger.total_releaseAll`, `Ledger.total_drop`, `Op.total_step`: running releases keeps
    the balance of a ledger, and so does every operation.
-/
import ScopedResources.Proofs.Owing

namespace ScopedResources

/-- A release apart from the bytes of its block. -/
def Release.outline : Release → Release
  | .forget (.block b) => .forget (.block (.zeroed b.size))
  | .forget (.text s) => .forget (.text s)
  | .note label panics => .note label panics
  | .dropContext label victim => .dropContext label victim
  | .close descriptor => .close descriptor
  | .restoreName previous => .restoreName previous
  | .leaveLock lock => .leaveLock lock

/-- A release that is due, apart from the bytes of its block. -/
def Due.outline (d : Due Release) : Due Release :=
  ⟨d.record, d.release.outline⟩

theorem Due.outline_eq_iff {d e : Due Release} :
    d.outline = e.outline ↔ d.record = e.record ∧ d.release.outline = e.release.outline := by
  simp only [outline, mk.injEq]

/-- A release that owns nothing is its outline. -/
theorem Release.eq_of_outline_eq {r r' : Release} (hr : ∀ payload, r ≠ .forget payload)
    (h : r'.outline = r.outline) : r' = r := by
  cases r with
  | forget payload => exact absurd rfl (hr payload)
  | _ =>
    cases r' with
    | forget payload => cases payload <;> cases h
    | _ =>
      cases h
      all_goals rfl

theorem Release.outline_set (b : Block) (position : Nat) (byte : UInt8) :
    (Release.forget (.block (b.set position byte))).outline =
      (Release.forget (.block b)).outline := by
  have hsize : (b.set position byte).size = b.size := by
    unfold Block.set; split <;> rfl
  rw [outline, outline, hsize]

/-- How often a release is in a list. -/
def tally (l : List (Due Release)) (d : Due Release) : Nat :=
  l.countP fun e => e.outline = d.outline

@[simp] theorem tally_nil (d : Due Release) : tally [] d = 0 := rfl

theorem tally_cons (e : Due Release) (l : List (Due Release)) (d : Due Release) :
    tally (e :: l) d = tally [e] d + tally l d := by
  simp only [tally, List.countP_cons, List.countP_nil]
  omega

@[simp] theorem tally_append (l m : List (Due Release)) (d : Due Release) :
    tally (l ++ m) d = tally l d + tally m d :=
  List.countP_append

theorem tally_pos_iff {l : List (Due Release)} {d : Due Release} :
    0 < tally l d ↔ ∃ e ∈ l, e.outline = d.outline := by
  simp [tally, List.countP_pos_iff]

theorem tally_eq_zero_iff {l : List (Due Release)} {d : Due Release} :
    tally l d = 0 ↔ ∀ e ∈ l, e.outline ≠ d.outline := by
  simp [tally, List.countP_eq_zero]

/-- A release that owns nothing has no outline in common with another. -/
theorem tally_eq_count {d : Due Release} (hd : ∀ payload, d.release ≠ .forget payload)
    (l : List (Due Release)) : tally l d = l.count d := by
  refine List.countP_congr fun e _ => ?_
  rw [decide_eq_true_eq, beq_iff_eq, Due.outline_eq_iff]
  obtain ⟨i, r⟩ := e
  obtain ⟨j, r'⟩ := d
  simp only [Due.mk.injEq]
  exact and_congr_right fun _ =>
    ⟨Release.eq_of_outline_eq hd, fun he => congrArg Release.outline he⟩

theorem tally_pos_iff_mem {l : List (Due Release)} {d : Due Release}
    (hd : ∀ payload, d.release ≠ .forget payload) : 0 < tally l d ↔ d ∈ l := by
  rw [tally_eq_count hd, List.count_pos_iff]

/-- Where each record has one release, each release is there once. -/
theorem tally_le_one {l : List (Due Release)} (hn : (l.map (·.record)).Nodup) (d : Due Release) :
    tally l d ≤ 1 := by
  calc tally l d ≤ l.countP fun e => e.record == d.record :=
        List.countP_mono_left fun e _ he => by
          simpa using (Due.outline_eq_iff.1 (by simpa using he)).1
    _ = (l.map (·.record)).count d.record := by rw [List.count, List.countP_map]; rfl
    _ ≤ 1 := List.nodup_iff_count_le_one.1 hn d.record

namespace Tree

variable {t t' u : Tree Release} {w g : Forest Release} {i j s : Index} {d : Due Release}
  {given due : List (Due Release)} {torn : Option Index} {l : List Index}

/-- Whether a release waits in a tree. -/
def holds (t : Tree Release) (d : Due Release) : Bool :=
  (t.release? d.record).any fun r => r.outline = d.release.outline

theorem holds_iff : t.holds d = true ↔
    ∃ o r, t.record? d.record = some (o, some r) ∧ r.outline = d.release.outline := by
  simp only [holds, release?, Option.any_eq_true, decide_eq_true_eq, Option.bind_eq_some_iff,
    Prod.exists]
  constructor
  · rintro ⟨r, ⟨o, r', h, rfl⟩, hr⟩; exact ⟨o, r, h, hr⟩
  · rintro ⟨o, r, h, hr⟩; exact ⟨r, ⟨o, _, h, rfl⟩, hr⟩

theorem holds_iff_release? (hd : ∀ payload, d.release ≠ .forget payload) :
    t.holds d = true ↔ t.release? d.record = some d.release := by
  rw [holds, Option.any_eq_true]
  constructor
  · rintro ⟨r, hr, ho⟩
    rw [hr, Release.eq_of_outline_eq hd (of_decide_eq_true ho)]
  · exact fun hr => ⟨_, hr, decide_eq_true rfl⟩

/-! ## Records after a change -/

theorem record?_congr (h : t'.nodes.get? i = t.nodes.get? i) : t'.record? i = t.record? i := by
  rw [record?, record?, h]

theorem record?_set {o : Index} {old : Option Release} {r : Release}
    (hi : t.nodes.get? i = some (.record o old))
    (hn : t'.nodes = t.nodes.set i (.record o (some r))) (j : Index) :
    t'.record? j = if j = i then some (o, some r) else t.record? j := by
  split
  · rename_i hj
    rw [hj, record?, hn, Slots.get?_set_self hi]
  · rename_i hj
    exact record?_congr (by rw [hn, Slots.get?_set_ne _ _ hj])

theorem record?_addChild {node : Node Release} {p : Option Index} {cs : List Index}
    (hc : t.nodes.get? t.current = some (.scope p cs)) (ha : t.addChild node = (some i, u))
    (hn : t'.nodes = u.nodes) (hj : j ≠ i) : t'.record? j = t.record? j := by
  obtain ⟨nodes, hI, hc', rfl⟩ := addChild_some hc ha
  rw [record?, record?, hn]
  by_cases hjc : j = t.current
  · rw [hjc, Slots.get?_set_self hc', hc]
  · rw [Slots.get?_set_ne _ _ hjc, hI.other j hj]

theorem release?_addChild {node : Node Release} {p : Option Index} {cs : List Index}
    (hc : t.nodes.get? t.current = some (.scope p cs)) (ha : t.addChild node = (some i, u))
    (hnode : ∀ o r, node = .record o r → r = none) (hn : t'.nodes = u.nodes) (j : Index) :
    t'.release? j = t.release? j := by
  by_cases hj : j = i
  · subst hj
    obtain ⟨nodes, hI, hc', rfl⟩ := addChild_some hc ha
    have hne : j ≠ t.current := by
      intro he
      have := hI.fresh
      rw [he, hc] at this; cases this
    rw [release?, release?, record?, record?, hn, Slots.get?_set_ne _ _ hne, hI.self, hI.fresh]
    cases node with
    | scope q cs => rfl
    | record o r => rw [hnode o r rfl]; rfl
  · rw [release?, release?, record?_addChild hc ha hn hj]

theorem Torn.record? (h : Torn t l t') (j : Index) :
    t'.record? j = if j ∈ l then none else t.record? j := by
  split
  · rename_i hj
    rw [Tree.record?, h.gone j hj]
  · rename_i hj
    have hrest := h.rest j hj
    rw [Tree.record?, Tree.record?]
    rcases hn : t.nodes.get? j with _ | ⟨p, cs⟩ | ⟨o, r⟩ <;>
      rcases hn' : t'.nodes.get? j with _ | ⟨p', cs'⟩ | ⟨o', r'⟩ <;>
      rw [hn, hn'] at hrest <;> simp_all [Node.bare]

/-- A teardown of a scope takes the records away whose owners are within it. -/
theorem Shows.mem_tornBy_iff (h : t.Shows w) (hg : w.below? s = some g) {o : Index}
    {r : Option Release} (hi : t.record? i = some (o, r)) :
    i ∈ t.tornBy s g ↔ t.isWithin s o = true := by
  have hi := record?_eq_some_iff.1 hi
  rw [← h.mem_below_iff hg hi, tornBy]
  split
  · exact Iff.rfl
  · rw [List.mem_append, List.mem_singleton, or_iff_left]
    rintro rfl
    obtain ⟨⟨p, hs⟩, -⟩ := h.held.below? hg
    rw [hi] at hs; cases hs

/-- What is due when a scope is torn down is what waits on the records that it
    takes away. -/
theorem Shows.tally_due (h : t.Shows w) (hg : w.below? s = some g) (d : Due Release) :
    tally g.due d = if d.record ∈ t.tornBy s g then (t.holds d).toNat else 0 := by
  have hn : (g.due.map (·.record)).Nodup :=
    (Forest.nodup_of_below? h.nodup hg).1.sublist (g.due_sublist.trans g.records_sublist)
  have hheld := (h.held.below? hg).2
  have hle := tally_le_one hn d
  have hpos : 0 < tally g.due d ↔ d.record ∈ t.tornBy s g ∧ t.holds d = true := by
    rw [tally_pos_iff, holds_iff]
    constructor
    · rintro ⟨e, he, hde⟩
      obtain ⟨hrec, hrel⟩ := Due.outline_eq_iff.1 hde
      obtain ⟨hmem, o, ho⟩ := hheld.mem_due_iff.1 he
      have hi := record?_eq_some_iff.2 ho
      rw [hrec] at hi hmem
      refine ⟨(h.mem_tornBy_iff hg hi).2 ?_, o, e.release, hi, hrel⟩
      exact (h.mem_below_iff hg (record?_eq_some_iff.1 hi)).1
        (Forest.mem_indices_of_mem_records hmem)
    · rintro ⟨hmem, o, r, hi, hr⟩
      have ho := record?_eq_some_iff.1 hi
      have hig := (h.mem_below_iff hg ho).2 ((h.mem_tornBy_iff hg hi).1 hmem)
      exact ⟨⟨d.record, r⟩, hheld.mem_due_iff.2 ⟨(hheld.mem_records_iff hig).2 ⟨o, _, ho⟩, o, ho⟩,
        Due.outline_eq_iff.2 ⟨rfl, hr⟩⟩
  by_cases hmem : d.record ∈ t.tornBy s g
  · rw [if_pos hmem]
    rcases hh : t.holds d with _ | _
    · have : ¬ 0 < tally g.due d := fun hp => by rw [hpos, hh] at hp; cases hp.2
      simpa using this
    · have : 0 < tally g.due d := hpos.2 ⟨hmem, hh⟩
      rw [Bool.toNat_true]
      omega
  · rw [if_neg hmem]
    have : ¬ 0 < tally g.due d := fun hp => hmem (hpos.1 hp).1
    omega

/-! ## One change -/

theorem release?_of_record?_eq (h : t'.record? i = t.record? i) : t'.release? i = t.release? i := by
  rw [release?, release?, h]

theorem holds_of_release?_eq (h : t'.release? d.record = t.release? d.record) :
    t'.holds d = t.holds d := by
  rw [holds, holds, h]

theorem holds_eq_false (h : t.release? d.record = none) : t.holds d = false := by
  rw [holds, h]; rfl

/-- A record that gets its release, and was not committed before. -/
theorem balance_attached {o : Index} {old : Option Release} {r : Release}
    (hr : t.nodes.get? i = some (.record o old)) (hn : t'.nodes = t.nodes.set i (.record o (some r)))
    (hfresh : t.release? i = none) (d : Due Release) :
    (t'.holds d).toNat = (t.holds d).toNat + tally [⟨i, r⟩] d := by
  have hi := record?_set hr hn d.record
  by_cases hd : d.record = i
  · rw [if_pos hd] at hi
    have hnone : t.holds d = false := holds_eq_false (by rw [hd]; exact hfresh)
    have hsome : t'.holds d = decide (r.outline = d.release.outline) := by
      rw [holds, release?, hi]; rfl
    have hcount : tally [⟨i, r⟩] d = (decide (r.outline = d.release.outline)).toNat := by
      simp only [tally, List.countP_cons, List.countP_nil, Due.outline_eq_iff, hd, true_and]
      by_cases h : r.outline = d.release.outline <;> simp [h]
    rw [hnone, hsome, hcount, Bool.toNat_false, Nat.zero_add]
  · rw [if_neg hd] at hi
    have hzero : tally [⟨i, r⟩] d = 0 := tally_eq_zero_iff.2 fun e he h => by
      rw [List.mem_singleton.1 he] at h
      exact hd (Due.outline_eq_iff.1 h).1.symm
    rw [holds_of_release?_eq (release?_of_record?_eq hi), hzero, Nat.add_zero]

/-- A change neither loses a release nor makes one of nothing, if no record is
    committed twice. -/
theorem Outcome.balance (h : t.Outcome t' torn given due) (hc : t.isScope t.current = true)
    (hfresh : ∀ e ∈ given, t.release? e.record = none) (d : Due Release) :
    (t'.holds d).toNat + tally due d = (t.holds d).toNat + tally given d := by
  obtain ⟨p, cs, hc⟩ := isScope_iff.1 hc
  cases h with
  | still hn _ =>
    have hi : t'.record? d.record = t.record? d.record := record?_congr (by rw [hn])
    rw [holds_of_release?_eq (release?_of_record?_eq hi)]
  | added _ hnode ha hn _ =>
    rw [holds_of_release?_eq (release?_addChild hc ha hnode hn d.record)]
  | attached hr hn _ =>
    rw [balance_attached hr hn (hfresh _ (List.mem_singleton_self _)), tally_nil, Nat.add_zero]
  | @written i o b position byte hr hn _ =>
    have hi := record?_set hr hn d.record
    by_cases hd : d.record = i
    · -- the outline of the block is what it was
      rw [if_pos hd] at hi
      have hr' : t.release? d.record = some (.forget (.block b)) := by
        rw [hd]; exact release?_eq_some_iff.2 ⟨o, hr⟩
      have hsome : t'.release? d.record = some (.forget (.block (b.set position byte))) := by
        rw [release?, hi]; rfl
      rw [holds, holds, hr', hsome, Option.any_some, Option.any_some, Release.outline_set]
    · rw [if_neg hd] at hi
      rw [holds_of_release?_eq (release?_of_record?_eq hi)]
  | late _ hn _ =>
    have hi : t'.record? d.record = t.record? d.record := record?_congr (by rw [hn])
    rw [holds_of_release?_eq (release?_of_record?_eq hi)]
  | @torn s w g ht hg hT =>
    have hi := hT.record? d.record
    rw [ht.tally_due hg, tally_nil, Nat.add_zero]
    by_cases hd : d.record ∈ t.tornBy s g
    · rw [if_pos hd] at hi ⊢
      rw [holds_eq_false (by rw [release?, hi]; rfl), Bool.toNat_false, Nat.zero_add]
    · rw [if_neg hd] at hi ⊢
      rw [holds_of_release?_eq (release?_of_record?_eq hi), Nat.add_zero]

/-- A release that a record has after a change it had before, or it was given to
    it now. -/
theorem Outcome.origin (h : t.Outcome t' torn given due) (hc : t.isScope t.current = true)
    {r : Release} (hr : t'.release? i = some r) : (∃ o old, t.record? i = some (o, old)) ∧
      ((∃ r₀, t.release? i = some r₀ ∧ r₀.outline = r.outline) ∨ ⟨i, r⟩ ∈ given) := by
  obtain ⟨p, cs, hc⟩ := isScope_iff.1 hc
  have hsame : t'.release? i = t.release? i → (∃ o old, t.record? i = some (o, old)) ∧
      ((∃ r₀, t.release? i = some r₀ ∧ r₀.outline = r.outline) ∨
        (⟨i, r⟩ : Due Release) ∈ given) := by
    intro he
    rw [hr] at he
    obtain ⟨o, ho⟩ := release?_eq_some_iff.1 he.symm
    exact ⟨⟨o, some r, record?_eq_some_iff.2 ho⟩, .inl ⟨r, he.symm, rfl⟩⟩
  cases h with
  | still hn _ => exact hsame (release?_of_record?_eq (record?_congr (by rw [hn])))
  | added _ hnode ha hn _ => exact hsame (release?_addChild hc ha hnode hn i)
  | @attached j o old r' hj hn _ =>
    have hij := record?_set hj hn i
    by_cases he : i = j
    · rw [if_pos he] at hij
      rw [release?, hij] at hr
      cases hr
      exact ⟨⟨o, old, record?_eq_some_iff.2 (he ▸ hj)⟩, .inr (by rw [he]; simp)⟩
    · rw [if_neg he] at hij
      exact hsame (release?_of_record?_eq hij)
  | @written j o b position byte hj hn _ =>
    have hij := record?_set hj hn i
    by_cases he : i = j
    · rw [if_pos he] at hij
      rw [release?, hij] at hr
      cases hr
      exact ⟨⟨o, _, record?_eq_some_iff.2 (he ▸ hj)⟩,
        .inl ⟨_, release?_eq_some_iff.2 ⟨o, he ▸ hj⟩, (Release.outline_set b position byte).symm⟩⟩
    · rw [if_neg he] at hij
      exact hsame (release?_of_record?_eq hij)
  | late _ hn _ => exact hsame (release?_of_record?_eq (record?_congr (by rw [hn])))
  | torn _ _ hT =>
    have hi := hT.record? i
    split at hi
    · rw [release?, hi] at hr; cases hr
    · exact hsame (release?_of_record?_eq hi)

/-- A release that waits keeps waiting, with the same owner, unless a scope is
    torn down that its owner is within; then its record is gone. -/
theorem Outcome.record?_of_waiting (h : t.Outcome t' torn given due)
    (hc : t.isScope t.current = true) {o : Index} {r : Release}
    (hi : t.record? i = some (o, some r)) (hgiven : ∀ e ∈ given, e.record ≠ i) :
    (∃ s, torn = some s ∧ t.isWithin s o = true) ∧ t'.record? i = none ∨
      (∀ s, torn = some s → ¬ t.isWithin s o = true) ∧
        ∃ r', t'.record? i = some (o, some r') ∧ r'.outline = r.outline := by
  obtain ⟨p, cs, hc⟩ := isScope_iff.1 hc
  have hstays : torn = none → t'.record? i = t.record? i →
      (∀ s, torn = some s → ¬ t.isWithin s o = true) ∧
        ∃ r', t'.record? i = some (o, some r') ∧ r'.outline = r.outline := fun hn he =>
    ⟨(fun s hs => by rw [hn] at hs; cases hs), r, he.trans hi, rfl⟩
  cases h with
  | still hn _ => exact .inr (hstays rfl (record?_congr (by rw [hn])))
  | @added j _ _ _ _ ha hn _ =>
    refine .inr (hstays rfl (record?_addChild hc ha hn ?_))
    rintro rfl
    obtain ⟨nodes, hI, -, -⟩ := addChild_some hc ha
    rw [Tree.record?, hI.fresh] at hi; cases hi
  | @attached j _ _ _ hj hn _ =>
    have hij := record?_set hj hn i
    rw [if_neg fun he => hgiven _ (List.mem_singleton_self _) he.symm] at hij
    exact .inr (hstays rfl hij)
  | @written j o' b _ _ hj hn _ =>
    have hij := record?_set hj hn i
    by_cases he : i = j
    · rw [if_pos he] at hij
      rw [he, record?_eq_some_iff.2 hj] at hi
      cases hi
      exact .inr ⟨(fun s hs => by cases hs), _, hij, Release.outline_set b _ _⟩
    · rw [if_neg he] at hij
      exact .inr (hstays rfl hij)
  | late _ hn _ => exact .inr (hstays rfl (record?_congr (by rw [hn])))
  | @torn s w g ht hg hT =>
    have hij := hT.record? i
    have hmem := ht.mem_tornBy_iff hg hi
    by_cases hs : t.isWithin s o = true
    · rw [if_pos (hmem.2 hs)] at hij
      exact .inl ⟨⟨s, rfl, hs⟩, hij⟩
    · rw [if_neg (mt hmem.1 hs)] at hij
      refine .inr ⟨?_, r, hij.trans hi, rfl⟩
      rintro s' hs'
      cases hs'
      exact hs

/-- An empty tree has no records. -/
theorem record?_new (a : UInt32) (i : Index) : (Tree.new (ρ := Release) a).record? i = none := by
  rw [record?, get?_new]
  by_cases hi : i = ⟨a, 0, 0⟩ <;> simp [hi]

theorem release?_new (a : UInt32) (i : Index) : (Tree.new (ρ := Release) a).release? i = none := by
  rw [release?, record?_new]; rfl

/-- When the top scope is torn down, all that waits is due. -/
theorem Shows.tally_dueOf_top (h : t.Shows w) (d : Due Release) :
    tally (Ledger.dueOf t t.top) d = (t.holds d).toNat := by
  obtain ⟨g, hg⟩ := Forest.exists_below? h.top_mem
  obtain ⟨t', hrun, ht', hT, -⟩ := h.destroy_top hg
  have hdue : Ledger.dueOf t t.top = g.due := by rw [Ledger.dueOf, hrun]; rfl
  have hby : t.tornBy t.top g = g.indices := by rw [tornBy, if_pos rfl]
  rw [hdue, h.tally_due hg, hby]
  split
  · rfl
  · rename_i hd
    -- nothing is left to wait on
    have hnone : t'.record? d.record = none := by
      rw [Option.eq_none_iff_forall_ne_some]
      rintro ⟨o, r⟩ hi
      have := ht'.mem_records_iff.2 ⟨o, r, record?_eq_some_iff.1 hi⟩
      simp [Forest.records] at this
    rw [hT.record?, if_neg hd] at hnone
    rw [holds_eq_false (by rw [release?, hnone]; rfl)]
    rfl

end Tree

/-! ## Ledgers -/

namespace Ledger

variable {l l' : Ledger} {k j : ContextId} {h : Hold} {d : Due Release}

/-- Whether a release waits in a context. -/
def has (l : Ledger) (d : Due Release) (k : ContextId) : Bool :=
  (l.hold k).any (·.tree.holds d)

/-- In how many contexts a release waits. -/
def waiting (l : Ledger) (d : Due Release) : Nat :=
  (List.range l.count).countP (l.has d)

/-- How often a release waits or has run. -/
def total (l : Ledger) (d : Due Release) : Nat :=
  tally l.ran d + l.waiting d

theorem has_of_hold (hk : l.hold k = some h) : l.has d k = h.tree.holds d := by
  rw [has, hk]; rfl

theorem has_of_none (hk : l.hold k = none) : l.has d k = false := by
  rw [has, hk]; rfl

/-- What waits, when what one context owns changes. -/
theorem waiting_update (hc : l'.count = l.count) (hk : k < l.count)
    (hother : ∀ j, j ≠ k → l'.hold j = l.hold j) (d : Due Release) :
    l'.waiting d + (l.has d k).toNat = l.waiting d + (l'.has d k).toNat := by
  rw [waiting, waiting, hc]
  exact countP_range_congr hk fun j hj => by rw [has, has, hother j hj]

theorem total_take (hl : l.Sound) (hk : l.hold k = some h) (d : Due Release) :
    (l.take k).total d + (h.tree.holds d).toNat = l.total d := by
  have hself : (l.take k).hold k = none := by rw [hold_take, if_pos rfl]
  have hw : (l.take k).waiting d + (l.has d k).toNat = l.waiting d + ((l.take k).has d k).toNat :=
    waiting_update (count_take l k) (hl.lt k h hk) (fun j hj => by rw [hold_take, if_neg hj]) d
  rw [has_of_hold hk, has_of_none hself, Bool.toNat_false] at hw
  rw [total, total, ran_take]
  omega

theorem total_onHold {f : Hold → Hold} (hl : l.Sound) (hk : l.hold k = some h) (d : Due Release) :
    (l.onHold k f).total d + (h.tree.holds d).toNat =
      l.total d + ((f h).tree.holds d).toNat := by
  have hself : (l.onHold k f).hold k = some (f h) := by rw [hold_onHold, if_pos rfl, hk]; rfl
  have hw : (l.onHold k f).waiting d + (l.has d k).toNat =
      l.waiting d + ((l.onHold k f).has d k).toNat :=
    waiting_update (count_onHold l k f) (hl.lt k h hk)
      (fun j hj => by rw [hold_onHold, if_neg hj]) d
  rw [has_of_hold hk, has_of_hold hself] at hw
  rw [total, total, ran_onHold]
  omega

/-- What waits in the contexts is what they owe. -/
theorem waiting_eq (hl : l.Sound) (d : Due Release) : l.waiting d = tally l.owed d := by
  have hdues : ∀ k, tally (l.dues k) d = (l.has d k).toNat := by
    intro k
    rcases hk : l.hold k with _ | h
    · rw [dues_of_none hk, has_of_none hk]
      rfl
    · obtain ⟨w, hw⟩ := hl.shows k h hk
      rw [dues_of_hold hk, has_of_hold hk, hw.tally_dueOf_top]
  rw [waiting, owed]
  induction List.range l.count with
  | nil => rfl
  | cons k ks ih =>
    rw [List.flatMap_cons, tally_append, hdues, ← ih, List.countP_cons]
    cases l.has d k <;> simp [Nat.add_comm]

/-- Running releases keeps the balance: they were due, and have run. -/
theorem Spends.total_eq {due new : List (Due Release)} (h : Spends l due l' new) (hl : l.Sound)
    (d : Due Release) : l'.total d = l.total d + tally due d := by
  have howed : tally (new ++ l'.owed) d = tally (due ++ l.owed) d := h.owed.countP_eq _
  rw [tally_append, tally_append] at howed
  rw [total, total, waiting_eq hl, waiting_eq (hl.of_outlasts h.outlasts), h.ran, tally_append]
  omega

theorem total_releaseAll (due : List (Due Release)) (hl : l.Sound) (d : Due Release) :
    (releaseAll drop due l).total d = l.total d + tally due d := by
  obtain ⟨new, hnew⟩ := spends_releaseAll (dropsWithin_drop l.alive) due hl (Nat.le_refl _)
  exact hnew.total_eq hl d

theorem total_drop (k : ContextId) (hl : l.Sound) (d : Due Release) :
    (drop k l).total d = l.total d := by
  obtain ⟨new, hnew⟩ := spends_drop k hl
  exact hnew.total_eq hl d

end Ledger

/-! ## One operation -/

/-- The releases that an operation is given. -/
def Op.given : Op → List (Due Release)
  | change _ c => c.given
  | newContext _ | dropContext _ => []

namespace Op

variable {l : Ledger} {k : ContextId} {d : Due Release}

theorem total_newContext (program : String) (l : Ledger) (d : Due Release) :
    ((newContext program).step l).total d = l.total d := by
  have hnew : ((newContext program).step l).has d l.count = false := by
    have hk : ((newContext program).step l).hold l.count = some (Context.new l.count "").hold := by
      simp only [step, if_true]
    rw [Ledger.has_of_hold hk]
    exact Tree.holds_eq_false (Tree.release?_new _ _)
  have hold : ∀ j ∈ List.range l.count,
      ((newContext program).step l).has d j = l.has d j := by
    intro j hj
    have hne : j ≠ l.count := Nat.ne_of_lt (List.mem_range.1 hj)
    simp only [Ledger.has, step, if_neg hne]
  have hw : ((newContext program).step l).waiting d = l.waiting d := by
    show (List.range (l.count + 1)).countP _ = _
    rw [List.range_succ, List.countP_append, List.countP_singleton, hnew]
    exact List.countP_congr fun j hj => by rw [hold j hj]
  rw [Ledger.total, Ledger.total, hw]
  rfl

theorem total_change (hl : l.Sound) (c : Change)
    (hfresh : ∀ h, l.hold k = some h → ∀ e ∈ c.given, h.tree.release? e.record = none)
    (d : Due Release) :
    ((change k c).step l).total d = l.total d + tally c.given d := by
  rw [step, Ledger.total_releaseAll _ (hl.onHold k c)]
  rcases hk : l.hold k with _ | h
  · -- a context that is gone owns nothing, and what it is given is due at once
    have hsame : l.onHold k c.apply = l := Ledger.onHold_eq_self fun x hx => by
      rw [hk] at hx; cases hx
    have hans : l.answer k = (Context.new k "").hold := by rw [Ledger.answer, hk]; rfl
    obtain ⟨hout, -⟩ := Change.outcome (h := (Context.new k "").hold) (Tree.shows_new _) c
    have hscope := (Tree.shows_new (ρ := Release) (UInt32.ofNat k)).isScope_current
    have hrel : ∀ i, (Context.new k "").hold.tree.release? i = none := Tree.release?_new _
    have hbal := hout.balance hscope (fun e _ => hrel e.record) d
    have hafter : (c.apply (Context.new k "").hold).tree.release? d.record = none := by
      rw [Option.eq_none_iff_forall_ne_some]
      intro r hr
      obtain ⟨⟨o, old, h⟩, -⟩ := hout.origin hscope hr
      cases (Tree.record?_new _ d.record).symm.trans h
    rw [Tree.holds_eq_false hafter, Tree.holds_eq_false (hrel d.record)] at hbal
    rw [hsame, hans]
    simp only [Bool.toNat_false] at hbal
    omega
  · obtain ⟨w, hw⟩ := hl.shows k h hk
    have hbal := (Change.outcome hw c).1.balance hw.isScope_current (hfresh h hk) d
    have htotal := Ledger.total_onHold (f := c.apply) hl hk d
    rw [Ledger.answer_of_hold hk]
    omega

/-- Every operation keeps the balance, if it gives no release to a record that
    has one. -/
theorem total_step (hl : l.Sound) (o : Op)
    (hfresh : ∀ k h, l.hold k = some h → ∀ e ∈ o.given, h.tree.release? e.record = none)
    (d : Due Release) : (o.step l).total d = l.total d + tally o.given d := by
  cases o with
  | newContext program => exact total_newContext program l d
  | dropContext k => exact Ledger.total_drop k hl d
  | change k c => exact total_change hl c (hfresh k) d

end Op

end ScopedResources
