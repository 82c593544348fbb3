/-
  The links of an ownership tree.

  A tree keeps its shape twice: a node knows the scope it lies in, and a scope
  knows its children.  In a well-formed tree the two agree, nothing is lost and
  nothing is met twice.

  * `Tree.WellFormed` says so about the links alone, and `Shows.wellFormed`
    that every tree that shows a forest is well-formed.
  * `WellFormed.below_iff`: what is reached from the top scope is all that is
    alive; `Shows.live_eq` counts it.
  * `Shows.current_after_insert`: a new node finds the current scope to lie in.
-/
import Mathlib.Data.Set.Card
import Mathlib.Logic.Relation
import ScopedResources.Proofs.Teardown

namespace ScopedResources.Tree

open Relation

variable {ρ : Type} {t : Tree ρ} {w f : Forest ρ} {i q s : Index}

/-- The scope that a node lies in, as the node has it. -/
def holder? (t : Tree ρ) (i : Index) : Option Index :=
  (t.nodes.get? i).bind Node.holder

/-- A scope that is alive has a node among its children. -/
def HasChild (t : Tree ρ) (q i : Index) : Prop :=
  ∃ p cs, t.nodes.get? q = some (.scope p cs) ∧ i ∈ cs

/-- The links of a tree agree. -/
structure WellFormed (t : Tree ρ) : Prop where
  /-- The top scope is alive, and lies in no other. -/
  top : ∃ cs, t.nodes.get? t.top = some (.scope none cs)
  current : t.isScope t.current = true
  /-- What is in a list of children is alive. -/
  entry : ∀ q i, t.HasChild q i → (t.nodes.get? i).isSome
  /-- A node other than the top scope is once among the children of the scope
      that it lies in, which is alive, and in no other list. -/
  once : ∀ i node, t.nodes.get? i = some node → i ≠ t.top →
    ∃ q, node.holder = some q ∧ t.isScope q = true ∧
      ∀ q' p cs, t.nodes.get? q' = some (.scope p cs) → cs.count i = if q' = q then 1 else 0
  /-- The top scope is nobody's child. -/
  root : ∀ q, ¬ t.HasChild q t.top
  /-- The way up from a node leads to the top scope. -/
  ascends : ∀ i, (t.nodes.get? i).isSome → ReflTransGen (fun i q => t.holder? i = some q) i t.top

theorem ascends_of_held : ∀ {f : Forest ρ} {p : Option Index}, f.Held t.nodes.get? p →
    i ∈ f.indices → ∃ r ∈ f.roots, ReflTransGen (fun i q => t.holder? i = some q) i r
  | .record j r older, p, ⟨_, ho⟩, hi => by
    simp only [Forest.indices, List.mem_cons] at hi
    rcases hi with rfl | hi
    · exact ⟨i, List.mem_cons_self .., .refl⟩
    · obtain ⟨r', hr', hup⟩ := ascends_of_held ho hi
      exact ⟨r', List.mem_cons_of_mem _ hr', hup⟩
  | .scope j below older, p, ⟨_, hb, ho⟩, hi => by
    simp only [Forest.indices, List.mem_append, List.mem_cons] at hi
    rcases hi with hi | rfl | hi
    · obtain ⟨r', hr', hup⟩ := ascends_of_held hb hi
      obtain ⟨node, hn, hh⟩ := hb.holder_of_mem_roots hr'
      exact ⟨j, List.mem_cons_self .., hup.tail (by rw [holder?, hn, Option.bind_some, hh])⟩
    · exact ⟨i, List.mem_cons_self .., .refl⟩
    · obtain ⟨r', hr', hup⟩ := ascends_of_held ho hi
      exact ⟨r', List.mem_cons_of_mem _ hr', hup⟩

theorem Shows.below?_of_hasChild (h : t.Shows w) (hc : t.HasChild q i) :
    ∃ g, w.below? q = some g ∧ i ∈ g.roots := by
  obtain ⟨p, cs, hq, hi⟩ := hc
  obtain ⟨g, hg, rfl⟩ := h.below?_of_scope hq
  exact ⟨g, hg, hi⟩

/-- A tree that shows a forest is well-formed. -/
theorem Shows.wellFormed (h : t.Shows w) : t.WellFormed where
  top := h.get?_top
  current := h.isScope_current
  entry q i hc := by
    obtain ⟨g, hg, hi⟩ := h.below?_of_hasChild hc
    exact h.mem_iff.1 (Forest.subset_of_below? h.nodup hg (Forest.mem_indices_of_mem_roots hi))
  once i node hi ht := by
    obtain ⟨node', q, g, hi', hq, hg, hr⟩ := h.holder (h.mem_iff.2 (by rw [hi]; rfl)) ht
    rw [hi] at hi'; cases hi'
    refine ⟨q, hq, h.mem_scopes_iff.1 (Forest.mem_scopes_of_below? hg), fun q' p cs hq' => ?_⟩
    obtain ⟨g', hg', rfl⟩ := h.below?_of_scope hq'
    split
    · rename_i he
      subst he
      rw [hg] at hg'; cases hg'
      exact List.count_eq_one_of_mem
        ((Forest.nodup_of_below? h.nodup hg).1.sublist g.roots_sublist) hr
    · rename_i hne
      exact List.count_eq_zero_of_not_mem fun hi' => hne (h.eq_of_mem_roots hg' hg hi' hr)
  root q hc := by
    obtain ⟨g, hg, hi⟩ := h.below?_of_hasChild hc
    obtain ⟨node, hn, hh⟩ := (h.held.below? hg).2.holder_of_mem_roots hi
    obtain ⟨cs, hcs⟩ := h.get?_top
    rw [hcs] at hn; cases hn
    cases hh
  ascends i hi := by
    obtain ⟨f, hf⟩ := h.root
    obtain ⟨r, hr, hup⟩ := ascends_of_held h.held (h.complete i hi)
    rw [hf, Forest.roots, Forest.roots, List.mem_singleton] at hr
    rwa [hr] at hup

namespace WellFormed

theorem hasChild_of_holder? (h : t.WellFormed) (hq : t.holder? i = some q) : t.HasChild q i := by
  obtain ⟨node, hn, hh⟩ := Option.bind_eq_some_iff.1 hq
  have ht : i ≠ t.top := by
    intro he
    obtain ⟨cs, htop⟩ := h.top
    rw [he, htop] at hn; cases hn
    cases hh
  obtain ⟨q', hq', hs, hcount⟩ := h.once i node hn ht
  rw [hh] at hq'; cases hq'
  obtain ⟨p, cs, hcs⟩ := isScope_iff.1 hs
  have := hcount q p cs hcs
  rw [if_pos rfl] at this
  exact ⟨p, cs, hcs, List.count_pos_iff.1 (by omega)⟩

/-- What is reached from the top scope is all that is alive. -/
theorem below_iff (h : t.WellFormed) :
    TransGen t.HasChild t.top i ↔ (t.nodes.get? i).isSome ∧ i ≠ t.top := by
  constructor
  · intro hi
    obtain ⟨q, -, hc⟩ := TransGen.tail'_iff.1 hi
    exact ⟨h.entry q i hc, fun he => h.root q (he ▸ hc)⟩
  · rintro ⟨hi, ht⟩
    have hdown : ReflTransGen t.HasChild t.top i := by
      refine ReflTransGen.mono (fun q i hq => ?_) _ _ (h.ascends i hi).swap
      exact h.hasChild_of_holder? hq
    exact (reflTransGen_iff_eq_or_transGen.1 hdown).resolve_left ht

end WellFormed

/-! ## What follows -/

/-- The number of nodes that a tree gives is the number of those that are reached
    from the top scope, which is counted but not given. -/
theorem Shows.live_eq (h : t.Shows w) :
    t.size = t.live + 1 ∧ t.live = {i | TransGen t.HasChild t.top i}.ncard := by
  obtain ⟨f, hf⟩ := h.root
  have hnd : t.top ∉ f.indices ∧ f.indices.Nodup := by
    have := h.nodup
    rw [hf, Forest.nodup_scope] at this
    exact ⟨this.2.2.1, this.1⟩
  have hsize : t.size = f.indices.length + 1 := by
    rw [h.size, hf]
    simp [Forest.indices]
  have hset : {i | TransGen t.HasChild t.top i} = (f.indices.toFinset : Set Index) := by
    ext i
    rw [Set.mem_ofPred_eq, h.wellFormed.below_iff, ← h.mem_iff, hf, List.coe_toFinset,
      Set.mem_ofPred_eq]
    simp only [Forest.indices, List.mem_append, List.mem_singleton]
    constructor
    · rintro ⟨hi | hi, ht⟩
      · exact hi
      · exact absurd hi ht
    · exact fun hi => ⟨.inl hi, fun he => hnd.1 (he ▸ hi)⟩
  have hlive : t.live = f.indices.length := by rw [live, hsize, Nat.add_sub_cancel]
  rw [hset, Set.ncard_coe_finset, List.toFinset_card_of_nodup hnd.2, hlive]
  exact ⟨hsize, rfl⟩

/-- After a new node was put into the store, the current scope is there to take it
    as a child. -/
theorem Shows.current_after_insert (h : t.Shows w) {node : Node ρ} {nodes : Slots (Node ρ)}
    (hins : t.nodes.insert node = (some i, nodes)) :
    ∃ p cs, nodes.get? t.current = some (.scope p cs) := by
  obtain ⟨p, cs, hc⟩ := isScope_iff.1 h.isScope_current
  have hI := Slots.insert_some hins
  have hne : t.current ≠ i := by
    intro he
    have := hI.fresh
    rw [← he, hc] at this; cases this
  exact ⟨p, cs, by rw [hI.other _ hne, hc]⟩

/-- A teardown of a scope finds every child that it looks for. -/
theorem Shows.exists_walked (h : t.Shows w) {p : Option Index} {cs : List Index}
    (hs : t.nodes.get? s = some (.scope p cs)) :
    ∃ result, Walked t.top s (2 * t.size + 1) s (detach t.nodes p s) [] result := by
  obtain ⟨g, hg, rfl⟩ := h.below?_of_scope hs
  exact ⟨_, h.walked hg hs⟩

end ScopedResources.Tree
