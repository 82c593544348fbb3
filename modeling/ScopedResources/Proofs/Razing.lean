/-
  Several teardowns of a tree.

  A teardown takes a scope out with all that is below it, and leaves the innermost scope
  current that is left around the one that was.  Both say what is left, and not how it came
  about: what several teardowns leave does not depend on their order.

  * `Forest.raze` is a teardown of a forest, `Tree.raze` several of a tree.
  * `Tree.Razed`: what is left of a tree, and where the current scope is.
  * `Shows.mem_dueOf_iff`, `Shows.dueOf_destroy`: what a teardown makes due.
  * `Shows.raze_perm`: the nodes, the current scope and what is still to be released, after
    teardowns in one order and in another.
-/
import ScopedResources.Proofs.Waiting
import ScopedResources.Proofs.Within

namespace ScopedResources

namespace Forest

variable {ρ : Type}

/-- Takes a scope out; of the top scope, takes out what is below it. -/
def raze (top s : Index) (f : Forest ρ) : Forest ρ :=
  if s = top then .scope top .nil .nil else f.prune s

theorem raze_comm (top s t : Index) (f : Forest ρ) :
    (f.raze top s).raze top t = (f.raze top t).raze top s := by
  have halone : ∀ s, ((scope top nil nil : Forest ρ)).raze top s = scope top nil nil := by
    intro s
    by_cases hs : s = top
    · rw [raze, if_pos hs]
    · rw [raze, if_neg hs, prune, if_neg (Ne.symm hs), prune]
  by_cases hs : s = top
  · rw [show f.raze top s = _ from if_pos hs, halone, raze, if_pos hs]
  · by_cases ht : t = top
    · rw [show f.raze top t = _ from if_pos ht, halone, raze, if_pos ht]
    · simp only [raze, if_neg hs, if_neg ht, prune_comm s t f]

end Forest

namespace Tree

open Relation

/-! ## What a tree shows -/

section

variable {ρ : Type} {t u : Tree ρ} {f : Forest ρ} {s : Index} {l l' : List Index}

theorem Shows.get?_eq (ht : t.Shows f) (hu : u.Shows f) (i : Index) :
    t.nodes.get? i = u.nodes.get? i := by
  by_cases hi : i ∈ f.indices
  · exact ht.held.get?_eq hu.held hi
  · rw [Option.not_isSome_iff_eq_none.1 (mt ht.mem_iff.2 hi),
      Option.not_isSome_iff_eq_none.1 (mt hu.mem_iff.2 hi)]

/-- A teardown takes its scope out of the forest. -/
theorem Shows.destroy_raze (ht : t.Shows f) (s : Index) :
    (t.destroy s).2.Shows (f.raze t.top s) ∧ (t.destroy s).2.top = t.top := by
  rcases hs : t.isScope s with _ | _
  · have hmem : s ∉ f.scopes := fun h => by rw [ht.mem_scopes_iff.1 h] at hs; cases hs
    have hne : s ≠ t.top := fun he => hmem (he ▸ ht.top_mem)
    rw [destroy_of_not_scope hs, Forest.raze, if_neg hne, Forest.prune_of_notMem_scopes hmem]
    exact ⟨ht, rfl⟩
  · obtain ⟨g, hg⟩ := ht.exists_below? hs
    by_cases hne : s = t.top
    · subst hne
      obtain ⟨t', hrun, hshows, htorn, -⟩ := ht.destroy_top hg
      rw [hrun, Forest.raze, if_pos rfl]
      exact ⟨hshows, htorn.top⟩
    · obtain ⟨t', hrun, hshows, htorn, -⟩ := ht.destroy_scope hg hne
      rw [hrun, Forest.raze, if_neg hne]
      exact ⟨hshows, htorn.top⟩

/-- Tears scopes down, one after the other. -/
def raze (t : Tree ρ) (l : List Index) : Tree ρ :=
  l.foldl (fun t s => (t.destroy s).2) t

theorem Shows.raze (ht : t.Shows f) (l : List Index) :
    (t.raze l).Shows (l.foldl (fun f s => f.raze t.top s) f) ∧ (t.raze l).top = t.top := by
  induction l generalizing t f with
  | nil => exact ⟨ht, rfl⟩
  | cons s l ih =>
    obtain ⟨hs, htop⟩ := ht.destroy_raze s
    have h := ih hs
    rw [htop] at h
    exact h

/-- The forest that is left does not depend on the order of teardowns. -/
theorem Shows.exists_raze_perm (ht : t.Shows f) (hp : l.Perm l') :
    ∃ g, (t.raze l).Shows g ∧ (t.raze l').Shows g := by
  have hfold : l.foldl (fun f s => f.raze t.top s) f = l'.foldl (fun f s => f.raze t.top s) f :=
    hp.foldl_eq' (fun s _ q _ f => f.raze_comm t.top s q) f
  exact ⟨_, (ht.raze l).1, hfold ▸ (ht.raze l').1⟩

end

/-! ## What is left -/

variable {t u v : Tree Release} {f f' : Forest Release} {s o x : Index} {l l' : List Index}

theorem Torn.scope (h : Torn t l u) (hx : u.isScope x = true) :
    x ∉ l ∧ t.isScope x = true ∧ u.parent? x = t.parent? x := by
  obtain ⟨p, cs, hu⟩ := isScope_iff.1 hx
  have hl : x ∉ l := fun hm => by rw [h.gone x hm] at hu; cases hu
  have hrest := h.rest x hl
  rw [hu, Option.map_some, eq_comm, Option.map_eq_some_iff] at hrest
  obtain ⟨node, ht, hbare⟩ := hrest
  cases node with
  | record o r => cases hbare
  | scope q cs' =>
    cases hbare
    exact ⟨hl, isScope_iff.2 ⟨_, _, ht⟩, by rw [parent?_of_get? hu, parent?_of_get? ht]⟩

/-- A tree from which scopes were taken out: the scopes and the records that are left are
    where they were, and the innermost scope that is left around the one that was current
    is current. -/
structure Razed (t u : Tree Release) : Prop where
  isScope : ∀ x, u.isScope x = true → t.isScope x = true
  isWithin : ∀ o x, u.isScope x = true → (u.isWithin o x = true ↔ t.isWithin o x = true)
  record : ∀ i o r, u.record? i = some (o, r) → t.record? i = some (o, r)
  around : t.isWithin u.current t.current = true
  nearest : ∀ x, u.isScope x = true → t.isWithin x t.current = true →
    t.isWithin x u.current = true

theorem Shows.razed_self (ht : t.Shows f) : Razed t t where
  isScope _ h := h
  isWithin _ _ _ := .rfl
  record _ _ _ h := h
  around := ht.isWithin_self ht.isScope_current
  nearest _ _ h := h

theorem Razed.trans (h : Razed t u) (h' : Razed u v) (ht : t.Shows f) (hu : u.Shows f')
    (hv : v.isScope v.current = true) : Razed t v where
  isScope x hx := h.isScope x (h'.isScope x hx)
  isWithin o x hx := (h'.isWithin o x hx).trans (h.isWithin o x (h'.isScope x hx))
  record i o r hi := h.record i o r (h'.record i o r hi)
  around := ht.isWithin_trans (h.isScope _ hu.isScope_current) ht.isScope_current
    ((h.isWithin _ _ hu.isScope_current).1 h'.around) h.around
  nearest x hx hin := by
    have hxu := h'.isScope x hx
    have hnear := (h.isWithin x _ hu.isScope_current).2 (h.nearest x hxu hin)
    exact (h.isWithin x _ (h'.isScope _ hv)).1 (h'.nearest x hx hnear)

/-- Two trees with the same scopes that were left of one tree have the same current scope. -/
theorem Razed.current_eq (h : Razed t u) (h' : Razed t v) (ht : t.Shows f) (hu : u.Shows f')
    (hv : v.Shows f') : u.current = v.current := by
  have hscope : ∀ x, u.isScope x = true ↔ v.isScope x = true := fun x => by
    rw [← hu.mem_scopes_iff, hv.mem_scopes_iff]
  have hcu := hu.isScope_current
  have hcv := hv.isScope_current
  exact ht.isWithin_antisymm (h.isScope _ hcu) (h'.isScope _ hcv)
    (h'.nearest _ ((hscope _).1 hcu) h.around) (h.nearest _ ((hscope _).2 hcv) h'.around)

theorem Shows.razed_destroy (ht : t.Shows f) (s : Index) : Razed t (t.destroy s).2 := by
  rcases hs : t.isScope s with _ | _
  · rw [destroy_of_not_scope hs]
    exact ht.razed_self
  obtain ⟨g, hg⟩ := ht.exists_below? hs
  obtain ⟨u, f', removed, hrun, hu, htorn⟩ := ht.destroy hg
  have haround := ht.around_destroy s
  have hcurrent : (t.destroy s).2.current = t.currentAfter s := by
    rcases hp : t.scope? s with _ | ⟨p, cs⟩
    · rw [Tree.isScope, hp] at hs; cases hs
    · rw [currentAfter, Tree.parent?, hp, Tree.destroy, hp]
      rfl
  rw [hrun] at haround hcurrent ⊢
  dsimp only at haround hcurrent ⊢
  have hcur := ht.isScope_current
  refine ⟨fun x hx => (htorn.scope hx).2.1, fun o x hx => ?_, fun i o r hi => ?_, haround,
    fun x hx hin => ?_⟩
  · exact ht.isWithin_congr hu (fun m _ hm => (htorn.scope hm).2.2) (htorn.scope hx).2.1 hx
  · rw [htorn.record?] at hi
    split at hi
    · cases hi
    · exact hi
  · obtain ⟨hnot, hxt, -⟩ := htorn.scope hx
    rw [hcurrent, currentAfter]
    split
    · rename_i hsin
      have hself : s = x → t.isWithin x ((t.parent? s).getD t.top) = true := by
        rintro rfl
        -- only the top scope outlasts its own teardown
        by_cases htop : s = t.top
        · obtain ⟨cs, hget⟩ := ht.get?_top
          rw [htop, parent?_of_get? hget]
          exact ht.isWithin_self (htop ▸ hs)
        · rw [tornBy, if_neg htop] at hnot
          exact absurd (List.mem_append_right _ (List.mem_singleton_self s)) hnot
      rcases ht.isWithin_total hcur hin hsin with hxs | hsx
      · rcases (ht.isWithin_iff_parent hs).1 hxs with he | ⟨m, hm, hxm⟩
        · exact hself he
        · rwa [hm]
      · rcases (ht.isWithin_iff (ht.mem_scopes_iff.2 hxt)).1 hsx with he | ⟨g', hg', hxg⟩
        · exact hself he.symm
        · rw [hg] at hg'; cases hg'
          refine absurd ?_ hnot
          rw [tornBy]
          split
          · exact Forest.mem_indices_of_mem_scopes hxg
          · exact List.mem_append_left _ (Forest.mem_indices_of_mem_scopes hxg)
    · exact hin

/-! ## What is due -/

theorem Shows.isScope_owner (ht : t.Shows f) {i : Index} {r : Option Release}
    (hi : t.record? i = some (o, r)) : t.isScope o = true :=
  ht.isScope_holder (record?_eq_some_iff.1 hi) rfl

/-- What is due in a teardown are the releases of the records within its scope. -/
theorem Shows.mem_dueOf_iff (ht : t.Shows f) {d : Due Release} : d ∈ Ledger.dueOf t s ↔
    ∃ o, t.record? d.record = some (o, some d.release) ∧ t.isWithin s o = true := by
  rw [Ledger.dueOf]
  rcases hs : t.isScope s with _ | _
  · rw [destroy_of_not_scope hs]
    refine iff_of_false (by simp) ?_
    rintro ⟨o, ho, hin⟩
    rw [ht.isScope_of_isWithin (ht.isScope_owner ho) hin] at hs
    cases hs
  · obtain ⟨g, hg⟩ := ht.exists_below? hs
    obtain ⟨u, f', removed, hrun, -, -⟩ := ht.destroy hg
    have hheld := (ht.held.below? hg).2
    rw [hrun, Option.map_some, Option.getD_some, hheld.mem_due_iff]
    constructor
    · rintro ⟨hmem, o, ho⟩
      exact ⟨o, record?_eq_some_iff.2 ho,
        (ht.mem_below_iff hg ho).1 (Forest.mem_indices_of_mem_records hmem)⟩
    · rintro ⟨o, ho, hin⟩
      have hget := record?_eq_some_iff.1 ho
      exact ⟨(hheld.mem_records_iff ((ht.mem_below_iff hg hget).2 hin)).2 ⟨o, _, hget⟩, o, hget⟩

/-- What is due in a tree that is left was due in the tree. -/
theorem Razed.mem_dueOf (h : Razed t u) (ht : t.Shows f) (hu : u.Shows f') {d : Due Release}
    (hd : d ∈ Ledger.dueOf u s) : d ∈ Ledger.dueOf t s := by
  obtain ⟨o, ho, hin⟩ := hu.mem_dueOf_iff.1 hd
  exact ht.mem_dueOf_iff.2 ⟨o, h.record _ _ _ ho, (h.isWithin s o (hu.isScope_owner ho)).1 hin⟩

/-- A teardown makes due what a later teardown of all would have made due. -/
theorem Shows.dueOf_destroy (ht : t.Shows f) (s : Index) :
    (Ledger.dueOf t t.top).Perm
      (Ledger.dueOf t s ++ Ledger.dueOf (t.destroy s).2 (t.destroy s).2.top) := by
  obtain ⟨hu, -⟩ := ht.destroy_raze s
  rw [ht.dueOf_top, hu.dueOf_top, Ledger.dueOf, Forest.raze]
  rcases hs : t.isScope s with _ | _
  · have hmem : s ∉ f.scopes := fun h => by rw [ht.mem_scopes_iff.1 h] at hs; cases hs
    rw [destroy_of_not_scope hs, if_neg fun he : s = t.top => hmem (he ▸ ht.top_mem),
      Forest.prune_of_notMem_scopes hmem]
    exact .rfl
  · obtain ⟨g, hg⟩ := ht.exists_below? hs
    by_cases htop : s = t.top
    · subst htop
      obtain ⟨u, hrun, -⟩ := ht.destroy_top hg
      rw [hrun, if_pos rfl, ht.eq_top hg]
      exact .rfl
    · obtain ⟨u, hrun, -⟩ := ht.destroy_scope hg htop
      rw [hrun, if_neg htop]
      exact Forest.due_prune ht.nodup hg

/-! ## Several teardowns -/

theorem Shows.razed (ht : t.Shows f) (l : List Index) : Razed t (t.raze l) := by
  induction l generalizing t f with
  | nil => exact ht.razed_self
  | cons s l ih =>
    have hu := (ht.destroy_raze s).1
    exact (ht.razed_destroy s).trans (ih hu) ht hu (hu.raze l).1.isScope_current

/-- What several teardowns leave to be released was to be released before. -/
theorem Shows.dueOf_raze (ht : t.Shows f) (l : List Index) :
    (Ledger.dueOf (t.raze l) (t.raze l).top).Subperm (Ledger.dueOf t t.top) := by
  induction l generalizing t f with
  | nil => exact .refl _
  | cons s l ih =>
    refine (ih (ht.destroy_raze s).1).trans ?_
    exact (List.sublist_append_right _ _).subperm.trans (ht.dueOf_destroy s).symm.subperm

/-- No record is left within a scope that was torn down. -/
theorem Shows.not_within_of_raze (ht : t.Shows f) (hs : s ∈ l) {i : Index} {r : Option Release}
    (hi : (t.raze l).record? i = some (o, r)) : ¬ t.isWithin s o = true := by
  induction l generalizing t f with
  | nil => cases hs
  | cons q l ih =>
    have hu := (ht.destroy_raze q).1
    have hiu := (hu.razed l).record i o r hi
    have hit := (ht.razed_destroy q).record i o r hiu
    rcases List.mem_cons.1 hs with rfl | hs
    · intro hin
      obtain ⟨g, hg⟩ := ht.exists_below? (ht.isScope_of_isWithin (ht.isScope_owner hit) hin)
      obtain ⟨u, f', removed, hrun, -, htorn⟩ := ht.destroy hg
      rw [hrun, htorn.record?, if_pos ((ht.mem_tornBy_iff hg hit).2 hin)] at hiu
      cases hiu
    · rw [← (ht.razed_destroy q).isWithin s o (hu.isScope_owner hiu)]
      exact ih hu hs hi

/-- What several teardowns leave of a tree does not depend on their order. -/
theorem Shows.raze_perm (ht : t.Shows f) (hp : l.Perm l') :
    (∀ i, (t.raze l).nodes.get? i = (t.raze l').nodes.get? i) ∧
      (t.raze l).top = (t.raze l').top ∧ (t.raze l).current = (t.raze l').current ∧
        Ledger.dueOf (t.raze l) (t.raze l).top = Ledger.dueOf (t.raze l') (t.raze l').top := by
  obtain ⟨g, hu, hv⟩ := ht.exists_raze_perm hp
  exact ⟨hu.get?_eq hv, (ht.raze l).2.trans (ht.raze l').2.symm,
    (ht.razed l).current_eq (ht.razed l') ht hu hv, hu.dueOf_top.trans hv.dueOf_top.symm⟩

end Tree

end ScopedResources
