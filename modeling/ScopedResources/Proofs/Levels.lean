/-
  A tree along its current scope.

  The current scope lies in its parent, that one in its own, and so on up to the top.  What
  a tree holds is then one forest for each of these scopes: what is older beside it; and
  what is below the current one.  Growing a tree and moving about in it changes this at the
  innermost levels only.

  * `Forest.nest` puts a forest inside of some levels, the innermost first.
  * `Slots.Linked` is kept by what changes a tree, so that a tree has room as long as its
    nodes are fewer than there are slots.
  * `Tree.Stands` says that a tree holds some levels, with a forest below the current scope:
    `Stands.push`, `Stands.reserve`, `Stands.commit`, `Stands.enter`, `Stands.pop`,
    `Stands.destroy` and `Stands.destroy_top` are what the operations do to these.
-/
import ScopedResources.Proofs.Region
import ScopedResources.Proofs.Reuse

namespace ScopedResources

variable {ρ : Type}

namespace Forest

variable {f g older : Forest ρ} {i s : Index} {levels outer : List (Index × Forest ρ)}

/-! ## Levels -/

/-- A forest inside of some scopes, the innermost first, each with its older siblings. -/
def nest : List (Index × Forest ρ) → Forest ρ → Forest ρ
  | [], f => f
  | (s, older) :: outer, f => nest outer (.scope s f older)

/-- The nodes that some levels have around what is inside of them. -/
def around (levels : List (Index × Forest ρ)) : List Index :=
  levels.flatMap fun level => level.1 :: level.2.indices

@[simp] theorem around_nil : around ([] : List (Index × Forest ρ)) = [] := rfl

@[simp] theorem around_cons (s : Index) (older : Forest ρ) (outer : List (Index × Forest ρ)) :
    around ((s, older) :: outer) = s :: older.indices ++ around outer := rfl

theorem nest_append (inner outer : List (Index × Forest ρ)) (f : Forest ρ) :
    nest (inner ++ outer) f = nest outer (nest inner f) := by
  induction inner generalizing f with
  | nil => rfl
  | cons level inner ih => exact ih _

theorem indices_nest (levels : List (Index × Forest ρ)) (f : Forest ρ) :
    (nest levels f).indices = f.indices ++ around levels := by
  induction levels generalizing f with
  | nil => simp [nest]
  | cons level outer ih => simp [nest, ih, indices, around]

/-- A level's scope is not met again further out. -/
theorem notMem_around (hn : (f.indices ++ around ((s, older) :: outer)).Nodup) :
    s ∉ around outer := by
  rw [around_cons, List.cons_append] at hn
  exact fun hs => (List.nodup_cons.1 (List.nodup_append.1 hn).2.1).1 (List.mem_append_right _ hs)

theorem mem_scopes_nest (h : (s, older) ∈ levels ∨ s ∈ f.scopes) : s ∈ (nest levels f).scopes := by
  induction levels generalizing f with
  | nil => exact h.resolve_left List.not_mem_nil
  | cons level outer ih =>
    obtain ⟨i, x⟩ := level
    refine ih (h.elim (fun hmem => ?_) fun hs => .inr (List.mem_append_left _ hs))
    rcases List.mem_cons.1 hmem with heq | hmem
    · cases heq
      exact .inr (List.mem_append_right _ (List.mem_cons_self ..))
    · exact .inl hmem

theorem mem_due_nest (levels : List (Index × Forest ρ)) {d : Due ρ} (h : d ∈ f.due) :
    d ∈ (nest levels f).due := by
  induction levels generalizing f with
  | nil => exact h
  | cons level outer ih => exact ih (List.mem_append_left _ h)

theorem mem_records_nest (levels : List (Index × Forest ρ)) (h : i ∈ f.records) :
    i ∈ (nest levels f).records := by
  induction levels generalizing f with
  | nil => exact h
  | cons level outer ih => exact ih (List.mem_append_left _ h)

/-- What holds of a change in a forest, holds of the same change inside of levels that it
    does not concern. -/
theorem mapBelow_nest {h : Forest ρ → Forest ρ} (hs : s ∉ around levels) :
    (nest levels f).mapBelow s h = nest levels (f.mapBelow s h) := by
  induction levels generalizing f with
  | nil => rfl
  | cons level outer ih =>
    obtain ⟨i, older⟩ := level
    simp only [around_cons, List.mem_cons, List.cons_append, List.mem_append, not_or] at hs
    rw [nest, ih hs.2.2, mapBelow, if_neg (Ne.symm hs.1), mapBelow_of_notMem hs.2.1, nest]

theorem below?_nest (hs : s ∉ around levels) : (nest levels f).below? s = f.below? s := by
  induction levels generalizing f with
  | nil => rfl
  | cons level outer ih =>
    obtain ⟨i, older⟩ := level
    simp only [around_cons, List.mem_cons, List.cons_append, List.mem_append, not_or] at hs
    rw [nest, ih hs.2.2, below?, if_neg (Ne.symm hs.1), below?_eq_none hs.2.1, Option.or_none]

theorem prune_nest (hs : s ∉ around levels) : (nest levels f).prune s = nest levels (f.prune s) := by
  induction levels generalizing f with
  | nil => rfl
  | cons level outer ih =>
    obtain ⟨i, older⟩ := level
    simp only [around_cons, List.mem_cons, List.cons_append, List.mem_append, not_or] at hs
    rw [nest, ih hs.2.2, prune, if_neg (Ne.symm hs.1), prune_of_notMem hs.2.1, nest]

theorem attach_nest {r : ρ} (hi : i ∉ around levels) :
    (nest levels f).attach i r = nest levels (f.attach i r) := by
  induction levels generalizing f with
  | nil => rfl
  | cons level outer ih =>
    obtain ⟨j, older⟩ := level
    simp only [around_cons, List.mem_cons, List.cons_append, List.mem_append, not_or] at hi
    rw [nest, ih hi.2.2, attach, attach_of_notMem hi.2.1, nest]

end Forest

/-! ## Room -/

namespace Tree

variable {t t' : Tree ρ} {i s : Index} {r : ρ}

theorem linked_new (arena : UInt32) : (Tree.new arena : Tree ρ).nodes.Linked :=
  Slots.linked_after arena [.insert (.scope none [] : Node ρ)]

theorem linked_addChild (h : t.nodes.Linked) (node : Node ρ) :
    (t.addChild node).2.nodes.Linked := by
  obtain ⟨nodes, top, current⟩ := t
  have hinsert := Slots.Linked.insert h node
  unfold addChild
  dsimp only at hinsert ⊢
  split
  · rename_i i nodes' heq
    rw [heq] at hinsert
    split
    · exact hinsert.set _ _
    · exact hinsert
  · rename_i nodes' heq
    rwa [heq] at hinsert

theorem linked_push (h : t.nodes.Linked) : t.push.2.nodes.Linked := by
  have hchild := linked_addChild h (.scope (some t.current) [])
  unfold push
  split
  · rename_i i u heq
    rwa [heq] at hchild
  · rename_i u heq
    rwa [heq] at hchild

theorem linked_commit (h : t.nodes.Linked) : (t.commit i r).2.nodes.Linked := by
  unfold commit
  split
  · exact h.set _ _
  · exact h

theorem linked_walk (top root : Index) : ∀ (bound : Nat) (node : Index) (nodes : Slots (Node ρ))
    (due : List (Due ρ)), nodes.Linked → (walk top root bound node nodes due).1.Linked
  | 0, _, _, _, h => h
  | bound + 1, node, nodes, due, h => by
    unfold walk
    split
    · dsimp only
      split
      · exact linked_walk top root bound _ _ _ (h.set _ _)
      · exact linked_walk top root bound _ _ _ ((h.set _ _).remove _)
      · exact linked_walk top root bound _ _ _ (h.set _ _)
    · split
      · dsimp only
        split
        · exact h
        · exact h.remove _
      · split
        · exact linked_walk top root bound _ _ _ (h.remove _)
        · exact h.remove _
    · exact h

theorem linked_destroy (h : t.nodes.Linked) : (t.destroy s).2.nodes.Linked := by
  obtain ⟨nodes, top, current⟩ := t
  have hdetach : ∀ parent, (detach nodes parent s).Linked := by
    intro parent
    unfold detach
    split
    · split
      · exact Slots.Linked.set h _ _
      · exact h
    · exact h
  unfold destroy
  split
  · exact linked_walk top s _ _ _ _ (hdetach _)
  · exact h

/-- A node finds room in a tree with fewer nodes than there are slots. -/
theorem addChild_isSome (h : t.nodes.Linked) (hroom : t.size < Slots.capacity) (node : Node ρ) :
    ∃ i, (t.addChild node).1 = some i := by
  obtain ⟨nodes, top, current⟩ := t
  obtain ⟨i, hi⟩ := Option.ne_none_iff_exists'.1 fun hnone =>
    Nat.ne_of_lt hroom ((Slots.Linked.insert_eq_none_iff h node).1 hnone)
  refine ⟨i, ?_⟩
  rcases hinsert : nodes.insert node with ⟨_ | j, nodes'⟩
  · rw [hinsert] at hi; cases hi
  · rw [hinsert] at hi; cases hi
    unfold addChild
    dsimp only
    rw [hinsert]
    dsimp only
    split <;> rfl

/-! ## Standing at some levels -/

/-- A tree holds some levels, of which the first is that of the current scope, with a
    forest below that. -/
structure Stands (t : Tree ρ) (levels : List (Index × Forest ρ)) (f : Forest ρ) : Prop where
  shows : t.Shows (.nest levels f)
  current : levels.head?.map (·.1) = some t.current
  linked : t.nodes.Linked

variable {f older : Forest ρ} {levels inner outer : List (Index × Forest ρ)}

theorem stands_new (arena : UInt32) :
    (Tree.new arena : Tree ρ).Stands [(⟨arena, 0, 0⟩, .nil)] .nil where
  shows := shows_new arena
  current := rfl
  linked := linked_new arena

namespace Stands

theorem nodup (h : t.Stands levels f) : (f.indices ++ Forest.around levels).Nodup :=
  Forest.indices_nest levels f ▸ h.shows.nodup

theorem size (h : t.Stands levels f) : t.size = (f.indices ++ Forest.around levels).length :=
  Forest.indices_nest levels f ▸ h.shows.size

/-- The first level is that of the current scope. -/
theorem exists_eq_cons (h : t.Stands levels f) :
    ∃ older outer, levels = (t.current, older) :: outer := by
  have hcurrent := h.current
  rcases levels with _ | ⟨⟨s, older⟩, outer⟩
  · cases hcurrent
  · cases hcurrent
    exact ⟨older, outer, rfl⟩

/-- The top scope is the last level, and has nothing beside it. -/
theorem eq_top (h : t.Stands [(s, older)] f) : s = t.top ∧ older = .nil := by
  obtain ⟨g, hg⟩ := h.shows.root
  cases hg
  exact ⟨rfl, rfl⟩

/-- The top scope is at the last level. -/
theorem top_mem (h : t.Stands levels f) : t.top ∈ Forest.around levels := by
  obtain ⟨g, hg⟩ := h.shows.root
  have hne : levels ≠ [] := by
    rintro rfl
    cases h.current
  clear h
  induction levels generalizing f with
  | nil => exact absurd rfl hne
  | cons level outer ih =>
    obtain ⟨s, older⟩ := level
    rw [Forest.around_cons, List.cons_append]
    rcases outer with _ | ⟨level, outer⟩
    · cases hg
      exact List.mem_cons_self ..
    · exact List.mem_cons_of_mem _ (List.mem_append_right _ (ih hg (by simp)))

theorem below?_level {x : Forest ρ} (hn : (f.indices ++ Forest.around ((s, x) :: outer)).Nodup) :
    (Forest.nest ((s, x) :: outer) f).below? s = some f := by
  rw [Forest.nest, Forest.below?_nest (Forest.notMem_around hn), Forest.below?, if_pos rfl]

/-- Something new below the current scope stands in front of what is there. -/
theorem mapBelow (h : t.Stands levels f) (g : Forest ρ → Forest ρ) :
    (Forest.nest levels f).mapBelow t.current g = .nest levels (g f) := by
  obtain ⟨older, outer, rfl⟩ := h.exists_eq_cons
  rw [Forest.nest, Forest.mapBelow_nest (Forest.notMem_around h.nodup), Forest.mapBelow,
    if_pos rfl, Forest.nest]

/-- Where there is room, a scope begins that becomes the innermost level. -/
theorem push (h : t.Stands levels f) (hroom : t.size < Slots.capacity) :
    ∃ s t', t.push = (some s, t') ∧ t'.Stands ((s, f) :: levels) .nil := by
  obtain ⟨s, hs⟩ := addChild_isSome h.linked hroom (.scope (some t.current) [])
  have hpush : t.push.1 = some s := by
    rcases hadd : t.addChild (.scope (some t.current) []) with ⟨_ | j, u⟩
    · rw [hadd] at hs; cases hs
    · rw [hadd] at hs; cases hs
      simp [Tree.push, hadd]
  have hpush : t.push = (some s, t.push.2) := Prod.ext hpush rfl
  obtain ⟨hshows, -, hcurrent, -⟩ := h.shows.push hpush
  refine ⟨s, t.push.2, hpush, ?_, congrArg some hcurrent.symm, linked_push h.linked⟩
  rwa [h.mapBelow] at hshows

/-- Where there is room, a record is put in front of what is below the current scope. -/
theorem reserve (h : t.Stands levels f) (hroom : t.size < Slots.capacity) :
    ∃ i t', t.reserve = (some i, t') ∧ t'.Stands levels (.record i none f) := by
  obtain ⟨i, hi⟩ := addChild_isSome h.linked hroom (.record t.current none)
  have hreserve : t.reserve = (some i, t.reserve.2) := Prod.ext hi rfl
  obtain ⟨hshows, -, hcurrent, -⟩ := h.shows.reserve hreserve
  refine ⟨i, t.reserve.2, hreserve, ?_, by rw [hcurrent]; exact h.current,
    linked_addChild h.linked _⟩
  rwa [h.mapBelow] at hshows

/-- A record below the current scope gets its release. -/
theorem commit (h : t.Stands levels f) (hi : i ∈ f.records) (r : ρ) :
    ∃ t', t.commit i r = (true, t') ∧ t'.Stands levels (f.attach i r) := by
  obtain ⟨o, old, hget⟩ := h.shows.held.record_of_mem (Forest.mem_records_nest levels hi)
  have haround : i ∉ Forest.around levels := fun hmem =>
    (List.nodup_append.1 h.nodup).2.2 i (Forest.mem_indices_of_mem_records hi) i hmem rfl
  refine ⟨(t.commit i r).2, by rw [commit_of_record hget], ?_, ?_, linked_commit h.linked⟩
  · rw [← Forest.attach_nest haround]
    exact h.shows.commit hget
  · rw [commit_of_record hget]
    exact h.current

/-- What a record below the current scope owns. -/
theorem release? (h : t.Stands levels f) (hd : ⟨i, r⟩ ∈ f.due) : t.release? i = some r :=
  release?_eq_some_iff.2 (h.shows.held.mem_due_iff.1 (Forest.mem_due_nest levels hd)).2

/-- Where there is no record in any level, none is alive. -/
theorem record?_eq_none (h : t.Stands levels f) (hnone : (Forest.nest levels f).records = [])
    (i : Index) : t.record? i = none := by
  rcases hrecord : t.record? i with _ | ⟨o, r⟩
  · rfl
  · have hget := record?_eq_some_iff.1 hrecord
    have hmem := h.shows.complete i (by rw [hget]; rfl)
    have hrec := (h.shows.held.mem_records_iff hmem).2 ⟨o, r, hget⟩
    rw [hnone] at hrec
    cases hrec

/-- A scope further out becomes current. -/
theorem enter (h : t.Stands (inner ++ (s, older) :: outer) f) :
    (t.enter s).Stands ((s, older) :: outer) (.nest inner f) where
  shows := by
    rw [← Forest.nest_append]
    exact h.shows.enter s
  current := by
    have hscope : t.isScope s = true :=
      h.shows.mem_scopes_iff.1 (Forest.mem_scopes_nest
        (.inl (List.mem_append_right inner (List.mem_cons_self ..))))
    unfold Tree.enter
    rw [if_pos hscope]
    rfl
  linked := h.linked

theorem parent? {x : Forest ρ} {p : Index} (h : t.Stands ((s, older) :: (p, x) :: outer) f) :
    t.parent? s = some p := by
  have hbelow : (Forest.nest ((p, x) :: outer) (.scope s f older)).below? p = some _ :=
    below?_level (by have hn := h.nodup; simpa [Forest.indices] using hn)
  obtain ⟨-, hs, -⟩ := h.shows.held.below? hbelow
  exact parent?_of_get? hs

/-- The current scope is left for its parent. -/
theorem pop {x : Forest ρ} {p : Index} (h : t.Stands ((s, older) :: (p, x) :: outer) f) :
    t.pop.Stands ((p, x) :: outer) (.scope s f older) where
  shows := h.shows.pop
  current := by
    obtain rfl : s = t.current := Option.some.inj h.current
    rw [current_pop, h.parent?]
    rfl
  linked := by
    rw [nodes_pop]
    exact h.linked

/-- The newest scope below the current one is torn down. -/
theorem destroy {below : Forest ρ} (h : t.Stands levels (.scope s below older)) :
    ∃ t', t.destroy s = (some ⟨below.due, below.indices.length + 1⟩, t') ∧
      t'.Stands levels older := by
  obtain ⟨x, outer, hlevels⟩ := h.exists_eq_cons
  have hcurrent : t.current ∈ Forest.around levels := by rw [hlevels]; exact List.mem_cons_self ..
  have hdisjoint := (List.nodup_append.1 h.nodup).2.2
  have hs : s ∈ (Forest.scope s below older).indices := by simp [Forest.indices]
  have haround : s ∉ Forest.around levels := fun hmem => hdisjoint s hs s hmem rfl
  have hbelow : (Forest.nest levels (.scope s below older)).below? s = some below := by
    rw [Forest.below?_nest haround, Forest.below?, if_pos rfl]
  obtain ⟨t', hrun, hshows, htorn, hafter, -⟩ :=
    h.shows.destroy_scope hbelow fun he => haround (he ▸ h.top_mem)
  refine ⟨t', hrun, ?_, ?_, ?_⟩
  · rwa [Forest.prune_nest haround, Forest.prune, if_pos rfl] at hshows
  · have houtside : ¬ t.isWithin s t.current = true := by
      rw [h.shows.isWithin_iff h.shows.current]
      rintro (he | ⟨g, hg, hmem⟩)
      · exact haround (he ▸ hcurrent)
      · rw [hbelow] at hg; cases hg
        refine hdisjoint _ (List.mem_append_left _ ?_) _ hcurrent rfl
        exact Forest.mem_indices_of_mem_scopes hmem
    rw [hafter, currentAfter, if_neg houtside]
    exact h.current
  · have hlinked := linked_destroy (s := s) h.linked
    rwa [hrun] at hlinked

/-- All that a tree holds is torn down. -/
theorem destroy_top (h : t.Stands [(s, older)] f) :
    ∃ t', t.destroy t.top = (some ⟨f.due, f.indices.length⟩, t') := by
  obtain ⟨rfl, rfl⟩ := h.eq_top
  obtain ⟨t', hrun, -⟩ := h.shows.destroy_top (g := f) (by simp [Forest.nest, Forest.below?])
  exact ⟨t', hrun⟩

end Stands

end Tree

end ScopedResources
