/-
  The forest of a well-formed tree, and what a teardown of it is by recursion.

  A tree is given by its links; whether they agree is all that well-formedness
  says.  That no way down is endless has to be shown before anything can be
  proved by recursion over what is below a scope.

  * `WellFormed.wellFounded_above`: going down from scope to child ends.
  * `WellFormed.shows`: a well-formed tree shows a forest.
  * `Tree.TearsDown` is the teardown of siblings by recursion: what is gone and
    what is due, each in order.  It has one result, and on a forest that is held
    it goes through the forest (`tearsDown_of_held`).
  * `Shows.below_iff`: what the forest has below a scope is what is reached from
    there.
-/
import Mathlib.Data.Fintype.EquivFin
import Mathlib.Order.WellFounded
import ScopedResources.Proofs.WellFormed

namespace ScopedResources

instance Index.finite : Finite Index :=
  Finite.of_injective
    (fun i => (i.arena.toBitVec.toFin, i.slot.toBitVec.toFin, i.generation.toBitVec.toFin))
    fun i j h => by
      obtain ⟨⟨a⟩, ⟨s⟩, ⟨g⟩⟩ := i
      obtain ⟨⟨a'⟩, ⟨s'⟩, ⟨g'⟩⟩ := j
      simp only [Prod.mk.injEq, BitVec.toFin_inj] at h
      obtain ⟨rfl, rfl, rfl⟩ := h
      rfl

namespace Tree

open Relation

variable {ρ : Type} {t : Tree ρ} {w f g : Forest ρ} {i j q s : Index}

/-! ## Up and down -/

/-- A node lies in the scope `q`, as the node has it. -/
abbrev LiesIn (t : Tree ρ) (i q : Index) : Prop :=
  t.holder? i = some q

theorem liesIn_unique : Relator.RightUnique t.LiesIn := by
  intro i q q' h h'
  exact Option.some.inj (h.symm.trans h')

namespace WellFormed

theorem not_liesIn_top (h : t.WellFormed) : ¬ t.LiesIn t.top q := by
  obtain ⟨cs, ht⟩ := h.top
  simp [LiesIn, holder?, ht, Node.holder]

/-- The lists of children say the same as the links up. -/
theorem hasChild_iff (h : t.WellFormed) : t.HasChild q i ↔ t.LiesIn i q := by
  refine ⟨fun hc => ?_, h.hasChild_of_holder?⟩
  obtain ⟨node, hi⟩ := Option.isSome_iff_exists.1 (h.entry q i hc)
  obtain ⟨q', hq', -, hcount⟩ := h.once i node hi fun he => h.root q (he ▸ hc)
  obtain ⟨p, cs, hq, hmem⟩ := hc
  have hpos := List.count_pos_iff.2 hmem
  rw [hcount q p cs hq] at hpos
  have heq : q = q' := by
    by_contra hne
    rw [if_neg hne] at hpos
    exact absurd hpos (Nat.lt_irrefl 0)
  rw [LiesIn, holder?, hi, Option.bind_some, hq', heq]

theorem reflTransGen_iff (h : t.WellFormed) :
    ReflTransGen t.HasChild q i ↔ ReflTransGen t.LiesIn i q := by
  have hswap : t.HasChild = Function.swap t.LiesIn := by
    funext q i
    exact propext h.hasChild_iff
  rw [hswap, reflTransGen_swap]

/-- No node is below itself: the way up from each ends at the top scope. -/
theorem not_below_self (h : t.WellFormed) : ¬ TransGen t.HasChild i i := by
  intro hloop
  obtain ⟨q, hdown, hc⟩ := TransGen.tail'_iff.1 hloop
  have hup := h.ascends i (h.entry q i hc)
  have hback := h.reflTransGen_iff.1 hdown
  have hout := h.hasChild_iff.1 hc
  clear hloop hdown hc
  -- along the way up, each scope is on the loop as well; the top scope is on none
  induction hup using ReflTransGen.head_induction_on generalizing q with
  | refl => exact h.not_liesIn_top hout
  | @head a c hac _ ih =>
    obtain rfl : q = c := liesIn_unique hout hac
    rcases ReflTransGen.cases_head hback with rfl | ⟨b, hqb, hba⟩
    · exact ih q .refl hac
    · exact ih b (hba.tail hac) hqb

/-- Going down from scope to child ends. -/
theorem wellFounded_below (h : t.WellFormed) :
    WellFounded fun i s => TransGen t.HasChild s i := by
  have htrans : IsTrans Index fun i s => TransGen t.HasChild s i :=
    ⟨fun _ _ _ hab hbc => hbc.trans hab⟩
  have hirrefl : Std.Irrefl fun i s => TransGen t.HasChild s i :=
    ⟨fun _ => h.not_below_self⟩
  exact Finite.wellFounded_of_trans_of_irrefl _

/-! ## The forest -/

theorem nodup_children (h : t.WellFormed) {p : Option Index} {cs : List Index}
    (hs : t.nodes.get? s = some (.scope p cs)) : cs.Nodup := by
  rw [List.nodup_iff_count_le_one]
  intro c
  by_cases hc : c ∈ cs
  · have hchild : t.HasChild s c := ⟨p, cs, hs, hc⟩
    obtain ⟨node, hn⟩ := Option.isSome_iff_exists.1 (h.entry s c hchild)
    obtain ⟨q, -, -, hcount⟩ := h.once c node hn fun he => h.root s (he ▸ hchild)
    rw [hcount s p cs hs]
    split <;> omega
  · rw [List.count_eq_zero_of_not_mem hc]
    exact Nat.zero_le 1

/-- What is below one child of a scope is not below another. -/
theorem eq_of_siblings (h : t.WellFormed) {c c' : Index} (hc : t.HasChild s c)
    (hc' : t.HasChild s c') (hj : ReflTransGen t.HasChild c j)
    (hj' : ReflTransGen t.HasChild c' j) : c = c' := by
  have key : ∀ {a b : Index}, t.HasChild s a → t.HasChild s b →
      ReflTransGen t.LiesIn a b → a = b := by
    intro a b ha hb hab
    rcases ReflTransGen.cases_head hab with he | ⟨q, haq, hqb⟩
    · exact he
    · obtain rfl : s = q := liesIn_unique (h.hasChild_iff.1 ha) haq
      exact absurd (TransGen.tail' (h.reflTransGen_iff.2 hqb) hb) h.not_below_self
  rcases ReflTransGen.total_of_right_unique liesIn_unique (h.reflTransGen_iff.1 hj)
    (h.reflTransGen_iff.1 hj') with hcc | hcc
  · exact key hc hc' hcc
  · exact (key hc' hc hcc).symm

/-- Siblings, with what is below each of them, are a forest, provided that what is
    below a scope is one. -/
theorem exists_siblings (h : t.WellFormed)
    (hbelow : ∀ c p cs, t.HasChild s c → t.nodes.get? c = some (.scope p cs) →
      ∃ f : Forest ρ, f.roots = cs ∧ f.Held t.nodes.get? (some c) ∧ f.indices.Nodup ∧
        ∀ j, j ∈ f.indices ↔ TransGen t.HasChild c j) :
    ∀ {cs : List Index}, cs.Nodup → (∀ c ∈ cs, t.HasChild s c) →
      ∃ f : Forest ρ, f.roots = cs ∧ f.Held t.nodes.get? (some s) ∧ f.indices.Nodup ∧
        ∀ j, j ∈ f.indices ↔ ∃ c ∈ cs, ReflTransGen t.HasChild c j
  | [], _, _ => ⟨.nil, rfl, trivial, List.nodup_nil, by simp [Forest.indices]⟩
  | c :: cs, hnd, hall => by
    obtain ⟨hc, hcs⟩ := List.forall_mem_cons.1 hall
    obtain ⟨hnc, hnd⟩ := List.nodup_cons.1 hnd
    obtain ⟨older, hroots, hheld, hndo, hmem⟩ := exists_siblings h hbelow hnd hcs
    -- what is below `c` is not below an older sibling
    have happart : ∀ j, ReflTransGen t.HasChild c j → j ∉ older.indices := by
      intro j hj ho
      obtain ⟨c', hc', hj'⟩ := (hmem j).1 ho
      exact hnc (h.eq_of_siblings hc (hcs c' hc') hj hj' ▸ hc')
    have hlies := h.hasChild_iff.1 hc
    rcases hn : t.nodes.get? c with _ | ⟨p, ds⟩ | ⟨o, r⟩
    · have halive := h.entry s c hc
      rw [hn] at halive; cases halive
    · have hp : p = some s := by rwa [LiesIn, holder?, hn] at hlies
      obtain ⟨below, hrootsb, hheldb, hndb, hmemb⟩ := hbelow c p ds hc hn
      refine ⟨.scope c below older, by rw [Forest.roots, hroots], ⟨?_, hheldb, hheld⟩, ?_, ?_⟩
      · rw [hn, hp, hrootsb]
      · refine Forest.nodup_scope.2 ⟨hndb, hndo, fun hi => ?_, happart c .refl, fun j hj => ?_⟩
        · exact h.not_below_self ((hmemb c).1 hi)
        · exact happart j ((hmemb j).1 hj).to_reflTransGen
      · intro j
        simp only [Forest.indices, List.mem_append, List.mem_cons, hmemb, hmem,
          exists_eq_or_imp, reflTransGen_iff_eq_or_transGen (a := c)]
        tauto
    · have ho : o = s := by
        rw [LiesIn, holder?, hn] at hlies
        exact Option.some.inj hlies
      refine ⟨.record c r older, by rw [Forest.roots, hroots], ⟨⟨o, by rw [ho], hn⟩, hheld⟩,
        Forest.nodup_record.2 ⟨happart c .refl, hndo⟩, fun j => ?_⟩
      -- nothing is below a record
      have hleaf : ReflTransGen t.HasChild c j ↔ j = c := by
        refine ⟨fun hj => ?_, fun hj => hj ▸ .refl⟩
        rcases ReflTransGen.cases_head hj with he | ⟨b, ⟨p, ds, hcs', -⟩, -⟩
        · exact he.symm
        · rw [hn] at hcs'; cases hcs'
      simp only [Forest.indices, List.mem_cons, hmem, exists_eq_or_imp, hleaf]

/-- What is below a scope is a forest. -/
theorem exists_below (h : t.WellFormed) : ∀ s p cs, t.nodes.get? s = some (.scope p cs) →
    ∃ f : Forest ρ, f.roots = cs ∧ f.Held t.nodes.get? (some s) ∧ f.indices.Nodup ∧
      ∀ j, j ∈ f.indices ↔ TransGen t.HasChild s j := by
  intro s
  induction s using h.wellFounded_below.induction with
  | _ s ih =>
    intro p cs hs
    have hchild : ∀ c, t.HasChild s c ↔ c ∈ cs := by
      refine fun c => ⟨fun ⟨p', cs', hs', hc⟩ => ?_, fun hc => ⟨p, cs, hs, hc⟩⟩
      rw [hs] at hs'; cases hs'
      exact hc
    obtain ⟨f, hroots, hheld, hnd, hmem⟩ := h.exists_siblings
      (fun c p' cs' hc => ih c (.single hc) p' cs') (h.nodup_children hs) fun c => (hchild c).2
    refine ⟨f, hroots, hheld, hnd, fun j => ?_⟩
    rw [hmem, TransGen.head'_iff]
    simp only [hchild]

/-- A well-formed tree whose store counts its nodes shows a forest. -/
theorem shows (h : t.WellFormed) (hsize : t.size = {i | (t.nodes.get? i).isSome}.ncard) :
    ∃ w, t.Shows w := by
  obtain ⟨cs, htop⟩ := h.top
  obtain ⟨f, hroots, hheld, hnd, hmem⟩ := h.exists_below t.top none cs htop
  have hft : t.top ∉ f.indices := fun hi => h.not_below_self ((hmem t.top).1 hi)
  have hall : ∀ i, i ∈ (Forest.scope t.top f .nil).indices ↔ (t.nodes.get? i).isSome := by
    intro i
    simp only [Forest.indices, List.mem_append, List.mem_singleton, hmem, h.below_iff]
    constructor
    · rintro (⟨hi, -⟩ | rfl)
      · exact hi
      · rw [htop]; rfl
    · intro hi
      by_cases ht : i = t.top
      · exact .inr ht
      · exact .inl ⟨hi, ht⟩
  have hnodup : (Forest.scope t.top f .nil).indices.Nodup :=
    Forest.nodup_scope.2 ⟨hnd, List.nodup_nil, hft, List.not_mem_nil, fun _ _ => List.not_mem_nil⟩
  have hheld' : (Forest.scope t.top f .nil).Held t.nodes.get? none :=
    ⟨by rw [htop, hroots], hheld, trivial⟩
  refine ⟨.scope t.top f .nil, ⟨f, rfl⟩, hheld', hnodup, fun i => (hall i).2, ?_, ?_⟩
  · obtain ⟨p, ds, hc⟩ := isScope_iff.1 h.current
    exact (hheld'.mem_scopes_iff ((hall _).2 (by rw [hc]; rfl))).2 ⟨p, ds, hc⟩
  · have hset : {i | (t.nodes.get? i).isSome} =
        ((Forest.scope t.top f .nil).indices.toFinset : Set Index) := by
      ext i
      rw [List.coe_toFinset]
      exact (hall i).symm
    rw [hsize, hset, Set.ncard_coe_finset, List.toFinset_card_of_nodup hnodup]

end WellFormed

/-! ## The teardown by recursion -/

/-- The teardown of siblings, the newest first, by recursion: what is gone and
    what is due, each in order.  A record goes and its release is due, if it is
    committed; a scope goes after all that is below it. -/
inductive TearsDown (t : Tree ρ) : List Index → List Index → List (Due ρ) → Prop
  | nil : TearsDown t [] [] []
  | record {i o : Index} {r : Option ρ} {older gone : List Index} {due : List (Due ρ)} :
    t.nodes.get? i = some (.record o r) → TearsDown t older gone due →
    TearsDown t (i :: older) (i :: gone) (dueWith i r due)
  | scope {i : Index} {p : Option Index} {children older goneBelow gone : List Index}
      {dueBelow due : List (Due ρ)} :
    t.nodes.get? i = some (.scope p children) → TearsDown t children goneBelow dueBelow →
    TearsDown t older gone due →
    TearsDown t (i :: older) (goneBelow ++ i :: gone) (dueBelow ++ due)

variable {l gone gone' : List Index} {due due' : List (Due ρ)}

/-- The recursion has one result. -/
theorem TearsDown.unique (h : t.TearsDown l gone due) (h' : t.TearsDown l gone' due') :
    gone = gone' ∧ due = due' := by
  induction h generalizing gone' due' with
  | nil => cases h'; exact ⟨rfl, rfl⟩
  | record hi _ ih =>
    cases h' with
    | record hi' holder' =>
      obtain ⟨rfl, rfl⟩ := ih holder'
      rw [hi] at hi'; cases hi'
      exact ⟨rfl, rfl⟩
    | scope hi' => rw [hi] at hi'; cases hi'
  | scope hi _ _ ihb iho =>
    cases h' with
    | record hi' => rw [hi] at hi'; cases hi'
    | scope hi' hbelow' holder' =>
      rw [hi] at hi'; cases hi'
      obtain ⟨rfl, rfl⟩ := ihb hbelow'
      obtain ⟨rfl, rfl⟩ := iho holder'
      exact ⟨rfl, rfl⟩

/-- On a forest that is held, the recursion over the links is the one over the
    forest. -/
theorem tearsDown_of_held : ∀ {f : Forest ρ} {p : Option Index}, f.Held t.nodes.get? p →
    t.TearsDown f.roots f.indices f.due
  | .nil, _, _ => .nil
  | .record _ _ _, _, ⟨⟨_, _, hi⟩, ho⟩ => .record hi (tearsDown_of_held ho)
  | .scope _ _ _, _, ⟨hi, hb, ho⟩ => .scope hi (tearsDown_of_held hb) (tearsDown_of_held ho)

theorem Shows.below_iff (h : t.Shows w) (hg : w.below? s = some g) :
    i ∈ g.indices ↔ TransGen t.HasChild s i := by
  obtain ⟨⟨p, hs⟩, hheld⟩ := h.held.below? hg
  obtain ⟨f, hroots, hf, -, hmem⟩ := h.wellFormed.exists_below s p g.roots hs
  have hfg := (hroots ▸ tearsDown_of_held hf).unique (tearsDown_of_held hheld)
  rw [← hfg.1, hmem]

theorem HasChild.isScope (h : t.HasChild q i) : t.isScope q = true := by
  obtain ⟨p, cs, hget, -⟩ := h
  exact isScope_iff.2 ⟨p, cs, hget⟩

/-- A scope is within another if it is reached from there. -/
theorem Shows.isWithin_iff_reaches (h : t.Shows w) (hi : t.isScope i = true) :
    t.isWithin s i = true ↔ ReflTransGen t.HasChild s i := by
  have hm := h.mem_scopes_iff.2 hi
  rw [h.isWithin_iff hm, reflTransGen_iff_eq_or_transGen]
  refine or_congr_right ⟨fun ⟨g, hg, hig⟩ => ?_, fun hr => ?_⟩
  · exact (h.below_iff hg).1 (Forest.mem_indices_of_mem_scopes hig)
  · obtain ⟨b, ⟨p, cs, hs, -⟩, -⟩ := TransGen.head'_iff.1 hr
    obtain ⟨g, hg, -⟩ := h.below?_of_scope hs
    exact ⟨g, hg, ((h.held.below? hg).2.mem_scopes_iff ((h.below_iff hg).2 hr)).2
      (h.held.scope_of_mem hm)⟩

/-- What is reached from a scope is what lies in scopes that are within it. -/
theorem Shows.reaches_iff (h : t.Shows w) :
    TransGen t.HasChild s i ↔ ∃ q, t.LiesIn i q ∧ t.isWithin s q = true := by
  rw [TransGen.tail'_iff]
  constructor
  · rintro ⟨q, hq, hc⟩
    exact ⟨q, h.wellFormed.hasChild_iff.1 hc, (h.isWithin_iff_reaches hc.isScope).2 hq⟩
  · rintro ⟨q, hi, hq⟩
    have hc := h.wellFormed.hasChild_iff.2 hi
    exact ⟨q, (h.isWithin_iff_reaches hc.isScope).1 hq, hc⟩

end Tree

end ScopedResources
