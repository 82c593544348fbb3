/-
  What a teardown removes and releases.

  A teardown walks over the links of the store and changes them on its way.
  On a tree that shows a forest, the walk of a scope removes the nodes below the
  scope in the order of `Forest.indices` and finds the releases of `Forest.due`.

  * `Walked` has one case for each arm of the walk, except for the one that
    skips a child that is gone; `walked_below` says that this arm is never met.
  * `Shows.destroy` is the teardown of a scope other than the top scope,
    `Shows.destroy_top` that of the top scope: what is due, what is gone, and
    how all else is as before.
  * `Slots.generation?_removeAll`: only the slots of what is gone move on to
    another generation.
-/
import ScopedResources.Proofs.Shape

namespace ScopedResources

/-! ## Taking several values out -/

namespace Slots

variable {α : Type} {s : Slots α} {i j : Index} {l : List Index}

/-- Takes the values at several indices out, one after the other. -/
def removeAll (s : Slots α) (l : List Index) : Slots α :=
  l.foldl remove s

@[simp] theorem removeAll_nil (s : Slots α) : s.removeAll [] = s := rfl

@[simp] theorem removeAll_cons (s : Slots α) (i : Index) (l : List Index) :
    s.removeAll (i :: l) = (s.remove i).removeAll l := rfl

@[simp] theorem removeAll_append (s : Slots α) (l m : List Index) :
    s.removeAll (l ++ m) = (s.removeAll l).removeAll m :=
  List.foldl_append

@[simp] theorem arena_removeAll : ∀ (l : List Index) (s : Slots α), (s.removeAll l).arena = s.arena
  | [], _ => rfl
  | i :: l, s => by rw [removeAll_cons, arena_removeAll l, arena_remove]

theorem get?_removeAll : ∀ (l : List Index) (s : Slots α) (j : Index),
    (s.removeAll l).get? j = if j ∈ l then none else s.get? j
  | [], _, _ => by simp
  | i :: l, s, j => by
    rw [removeAll_cons, get?_removeAll l, get?_remove]
    by_cases hl : j ∈ l
    · simp [hl]
    · by_cases hi : j = i <;> simp [hl, hi]

theorem set_removeAll_comm (u : α) : ∀ {l : List Index} {s : Slots α}, i ∉ l →
    (s.set i u).removeAll l = (s.removeAll l).set i u
  | [], _, _ => rfl
  | j :: l, s, h => by
    rw [List.mem_cons, not_or] at h
    rw [removeAll_cons, removeAll_cons, set_remove_comm s u h.1, set_removeAll_comm u h.2]

theorem isSome_of_remove (hn : (i :: l).Nodup) (hl : ∀ j ∈ i :: l, (s.get? j).isSome) :
    ∀ j ∈ l, ((s.remove i).get? j).isSome := by
  intro j hj
  have hji : j ≠ i := fun h => (List.nodup_cons.1 hn).1 (h ▸ hj)
  rw [get?_remove_ne s hji]
  exact hl j (List.mem_cons_of_mem _ hj)

theorem size_removeAll : ∀ {l : List Index} {s : Slots α}, l.Nodup →
    (∀ j ∈ l, (s.get? j).isSome) → (s.removeAll l).size = s.size - l.length
  | [], _, _, _ => rfl
  | i :: l, s, hn, hl => by
    obtain ⟨v, hv⟩ := Option.isSome_iff_exists.1 (hl i (List.mem_cons_self ..))
    rw [removeAll_cons, size_removeAll (List.nodup_cons.1 hn).2 (isSome_of_remove hn hl),
      size_remove hv, List.length_cons]
    omega

/-- The slots of the values that are taken out move to their next generation,
    once each; all others stay. -/
theorem generation?_removeAll : ∀ {l : List Index} {s : Slots α}, l.Nodup →
    (∀ j ∈ l, (s.get? j).isSome) → ∀ n, (s.removeAll l).generation? n =
      if n ∈ l.map (·.slot) then (s.generation? n).map (· + 1) else s.generation? n
  | [], _, _, _, _ => by simp
  | i :: l, s, hn, hl, n => by
    obtain ⟨v, hv⟩ := Option.isSome_iff_exists.1 (hl i (List.mem_cons_self ..))
    have hrest := isSome_of_remove hn hl
    rw [removeAll_cons, generation?_removeAll (List.nodup_cons.1 hn).2 hrest n,
      generation?_remove hv]
    by_cases hni : n = i.slot
    · subst hni
      have hnot : i.slot ∉ l.map (·.slot) := by
        intro h
        obtain ⟨j, hj, hs⟩ := List.mem_map.1 h
        obtain ⟨u, hu⟩ := Option.isSome_iff_exists.1 (hl j (List.mem_cons_of_mem _ hj))
        exact (List.nodup_cons.1 hn).1 (eq_of_slot_eq hu hv hs ▸ hj)
      simp [hnot, generation?_of_get? hv]
    · simp [hni]

end Slots

/-! ## The walk -/

/-- A node apart from its children. -/
def Node.bare {ρ : Type} : Node ρ → Node ρ
  | .scope parent _ => .scope parent []
  | .record owner release => .record owner release

namespace Forest

variable {ρ : Type}

/-- How many steps the walk takes over a forest: one for each record, and two
    for each scope, which is entered and left. -/
def steps : Forest ρ → Nat
  | nil => 0
  | record _ _ older => older.steps + 1
  | scope _ below older => below.steps + older.steps + 2

theorem steps_le : ∀ f : Forest ρ, f.steps ≤ 2 * f.indices.length
  | nil => Nat.le_refl _
  | record _ _ older => by
    have := steps_le older
    simp only [steps, indices, List.length_cons]
    omega
  | scope _ below older => by
    have := steps_le below
    have := steps_le older
    simp only [steps, indices, List.length_append, List.length_cons]
    omega

end Forest

namespace Tree

variable {ρ : Type} {t t' : Tree ρ} {w f g : Forest ρ} {i j n s top root : Index}
  {nodes : Slots (Node ρ)} {due : List (Due ρ)} {p : Option Index}
  {result : Slots (Node ρ) × List (Due ρ)} {b : Nat}

/-- The walk of a teardown that finds every child it looks for and ends at its
    root: each case is an arm of the walk. -/
inductive Walked (top root : Index) :
    Nat → Index → Slots (Node ρ) → List (Due ρ) → Slots (Node ρ) × List (Due ρ) → Prop
  | descend {b : Nat} {node child : Index} {nodes : Slots (Node ρ)} {due : List (Due ρ)}
      {result : Slots (Node ρ) × List (Due ρ)} {parent q : Option Index} {children cs : List Index} :
    nodes.get? node = some (.scope parent (child :: children)) →
    (nodes.set node (.scope parent children)).get? child = some (.scope q cs) →
    Walked top root b child (nodes.set node (.scope parent children)) due result →
    Walked top root (b + 1) node nodes due result
  | release {b : Nat} {node child o : Index} {nodes : Slots (Node ρ)} {due : List (Due ρ)}
      {result : Slots (Node ρ) × List (Due ρ)} {parent : Option Index} {children : List Index}
      {r : Option ρ} :
    nodes.get? node = some (.scope parent (child :: children)) →
    (nodes.set node (.scope parent children)).get? child = some (.record o r) →
    Walked top root b node ((nodes.set node (.scope parent children)).remove child)
      (dueWith child r due) result →
    Walked top root (b + 1) node nodes due result
  | climb {b : Nat} {node parent : Index} {nodes : Slots (Node ρ)} {due : List (Due ρ)}
      {result : Slots (Node ρ) × List (Due ρ)} :
    nodes.get? node = some (.scope (some parent) []) → node ≠ root →
    Walked top root b parent (nodes.remove node) due result →
    Walked top root (b + 1) node nodes due result
  | finish {b : Nat} {nodes : Slots (Node ρ)} {due : List (Due ρ)} {parent : Option Index} :
    nodes.get? root = some (.scope parent []) →
    Walked top root (b + 1) root nodes due (if root = top then nodes else nodes.remove root, due)

theorem Walked.walk_eq (h : Walked top root b n nodes due result) :
    walk top root b n nodes due = result := by
  induction h with
  | descend hn hc _ ih => simp only [walk, hn, hc, ih]
  | release hn hc _ ih => simp only [walk, hn, hc, ih]
  | climb hn hne _ ih => simp only [walk, hn, if_neg hne, ih]
  | finish hn => simp only [walk, hn, if_true]

theorem dueWith_eq (i : Index) (r : Option ρ) (due : List (Due ρ)) :
    dueWith i r due = dueWith i r [] ++ due := by
  cases r <;> rfl

theorem reverse_dueWith (i : Index) (r : Option ρ) (due : List (Due ρ)) :
    (dueWith i r due).reverse = due.reverse ++ dueWith i r [] := by
  cases r <;> simp [dueWith]

/-- The walk from a scope over all that is below it, newest first, back to the
    scope. -/
theorem walked_below : ∀ {f : Forest ρ} {n : Index} {nodes : Slots (Node ρ)} {due : List (Due ρ)}
    {p : Option Index} {b : Nat},
    nodes.get? n = some (.scope p f.roots) → f.Held nodes.get? (some n) → f.indices.Nodup →
    n ∉ f.indices → root ∉ f.indices →
    Walked top root b n ((nodes.removeAll f.indices).set n (.scope p []))
      (f.due.reverse ++ due) result →
    Walked top root (b + f.steps) n nodes due result
  | .nil, n, nodes, due, p, b, hn, _, _, _, _, hw => by
    simp only [Forest.roots] at hn
    rwa [Forest.indices, Slots.removeAll_nil, Slots.set_eq_self hn] at hw
  | .record i r older, n, nodes, due, p, b, hn, ⟨⟨o, _, hi⟩, ho⟩, hnd, hnf, hrf, hw => by
    obtain ⟨hio, hno⟩ := Forest.nodup_record.1 hnd
    simp only [Forest.indices, List.mem_cons, not_or] at hnf hrf
    have hin : i ≠ n := Ne.symm hnf.1
    refine .release hn (by rw [Slots.get?_set_ne _ _ hin, hi]) ?_
    refine walked_below (p := p) ?_ (ho.congr fun j hj => ?_) hno hnf.2 hrf.2 ?_
    · rw [Slots.get?_remove_ne _ hnf.1, Slots.get?_set_self hn]
    · have hji : j ≠ i := fun h => hio (h ▸ hj)
      have hjn : j ≠ n := fun h => hnf.2 (h ▸ hj)
      rw [Slots.get?_remove_ne _ hji, Slots.get?_set_ne _ _ hjn]
    · rw [Forest.indices, Slots.removeAll_cons, Forest.due, reverse_dueWith, List.append_assoc,
        ← dueWith_eq] at hw
      rwa [Slots.set_remove_comm _ _ hnf.1, Slots.set_removeAll_comm _ hnf.2, Slots.set_set]
  | .scope i below older, n, nodes, due, p, b, hn, ⟨hi, hb, ho⟩, hnd, hnf, hrf, hw => by
    obtain ⟨hnb, hno, hib, hio, hd⟩ := Forest.nodup_scope.1 hnd
    simp only [Forest.indices, List.mem_append, List.mem_cons, not_or] at hnf hrf
    obtain ⟨hnfb, hni, hnfo⟩ := hnf
    obtain ⟨hrb, hri, hro⟩ := hrf
    have hin : i ≠ n := Ne.symm hni
    have hi' : (nodes.set n (.scope p older.roots)).get? i = some (.scope (some n) below.roots) := by
      rw [Slots.get?_set_ne _ _ hin, hi]
    have hsteps : b + (Forest.scope i below older).steps = b + older.steps + 1 + below.steps + 1 := by
      simp only [Forest.steps]; omega
    rw [hsteps]
    refine .descend hn hi' ?_
    refine walked_below hi' (hb.congr fun j hj => Slots.get?_set_ne _ _ fun h => hnfb (h ▸ hj))
      hnb hib hrb ?_
    have hi'' := (Slots.get?_removeAll below.indices (nodes.set n (.scope p older.roots)) i).trans
      ((if_neg hib).trans hi')
    refine .climb (Slots.get?_set_self hi'') (Ne.symm hri) ?_
    -- back at `n`, which is left with the older children
    rw [Slots.remove_set_self]
    have hget : ∀ j, j ∉ below.indices → j ≠ i → j ≠ n →
        (((nodes.set n (.scope p older.roots)).removeAll below.indices).remove i).get? j =
          nodes.get? j := by
      intro j hjb hji hjn
      rw [Slots.get?_remove_ne _ hji, Slots.get?_removeAll, if_neg hjb, Slots.get?_set_ne _ _ hjn]
    refine walked_below (p := p) ?_ (ho.congr fun j hj => ?_) hno hnfo hro ?_
    · rw [Slots.get?_remove_ne _ hni, Slots.get?_removeAll, if_neg hnfb, Slots.get?_set_self hn]
    · exact hget j (fun h => hd j h hj) (fun h => hio (h ▸ hj)) fun h => hnfo (h ▸ hj)
    · rw [Forest.indices, Slots.removeAll_append, Slots.removeAll_cons, Forest.due,
        List.reverse_append, List.append_assoc] at hw
      rwa [Slots.set_removeAll_comm _ hnfb, Slots.set_remove_comm _ _ hni,
        Slots.set_removeAll_comm _ hnfo, Slots.set_set]

/-- What the walk of a scope leaves of the store, and what is due, the last one
    first. -/
theorem walked_scope {bound : Nat} (top : Index) (hn : nodes.get? s = some (.scope p g.roots))
    (hg : g.Held nodes.get? (some s)) (hnd : g.indices.Nodup) (hs : s ∉ g.indices)
    (hb : g.steps + 1 ≤ bound) :
    Walked top s bound s nodes [] (if s = top then (nodes.removeAll g.indices).set s (.scope p [])
      else nodes.removeAll (g.indices ++ [s]), g.due.reverse) := by
  obtain ⟨b, rfl⟩ : ∃ b, bound = b + 1 + g.steps := ⟨bound - (g.steps + 1), by omega⟩
  refine walked_below hn hg hnd hs hs ?_
  have hself := (Slots.get?_removeAll g.indices nodes s).trans ((if_neg hs).trans hn)
  rw [List.append_nil, Slots.removeAll_append, Slots.removeAll_cons, Slots.removeAll_nil,
    ← Slots.remove_set_self _ s (.scope p [])]
  exact .finish (Slots.get?_set_self hself)

/-! ## Below a scope -/

/-- A child lies in one scope only. -/
theorem Shows.eq_of_mem_roots (h : t.Shows w) {q : Index} {gq : Forest ρ}
    (hi : w.below? i = some f) (hq : w.below? q = some gq) (hn : n ∈ f.roots) (hn' : n ∈ gq.roots) :
    i = q := by
  obtain ⟨node, h₁, h₂⟩ := (h.held.below? hi).2.holder_of_mem_roots hn
  obtain ⟨node', h₁', h₂'⟩ := (h.held.below? hq).2.holder_of_mem_roots hn'
  rw [h₁] at h₁'; cases h₁'
  exact Option.some.inj (h₂.symm.trans h₂')

theorem Shows.below?_of_scope (h : t.Shows w) {cs : List Index}
    (hi : t.nodes.get? i = some (.scope p cs)) : ∃ f, w.below? i = some f ∧ f.roots = cs := by
  obtain ⟨f, hf⟩ := h.exists_below? (isScope_iff.2 ⟨p, cs, hi⟩)
  obtain ⟨⟨p', hp'⟩, -⟩ := h.held.below? hf
  rw [hi] at hp'; cases hp'
  exact ⟨f, hf, rfl⟩

/-- A scope other than the top scope is a child of the one that its parent link
    names, which is neither the scope itself nor below it. -/
theorem Shows.above (h : t.Shows w) (hg : w.below? s = some g) (hs : s ≠ t.top) :
    ∃ q f pq, t.nodes.get? s = some (.scope (some q) g.roots) ∧ w.below? q = some f ∧
      t.nodes.get? q = some (.scope pq f.roots) ∧ s ∈ f.roots ∧ q ∉ g.indices ∧ q ≠ s := by
  obtain ⟨⟨ps, hps⟩, -⟩ := h.held.below? hg
  obtain ⟨node, q, f, hnode, hq, hf, hsf⟩ := h.holder (Forest.mem_indices_of_below? hg) hs
  rw [hps] at hnode; cases hnode
  cases hq
  obtain ⟨⟨pq, hpq⟩, -⟩ := h.held.below? hf
  have hsg : s ∉ g.indices := (Forest.nodup_of_below? h.nodup hg).2.1
  have hsf' : s ∈ f.indices := Forest.mem_indices_of_mem_roots hsf
  refine ⟨q, f, pq, hps, hf, hpq, hsf, fun hqg => ?_, fun hqs => ?_⟩
  · -- were `q` below `s`, then `s` would be below `s`
    have hqg' : q ∈ g.scopes :=
      ((h.held.below? hg).2.mem_scopes_iff hqg).2 ⟨pq, f.roots, hpq⟩
    have hfg : g.below? q = some f := by rw [← Forest.below?_below? h.nodup hg hqg', hf]
    exact hsg (Forest.subset_of_below? (Forest.nodup_of_below? h.nodup hg).1 hfg hsf')
  · subst hqs
    rw [hg] at hf; cases hf
    exact hsg hsf'

/-- Only the scope above a scope has it as a child. -/
theorem Shows.map_without (h : t.Shows w) {q : Index} {pq : Option Index}
    (hf : w.below? q = some f) (hq : t.nodes.get? q = some (.scope pq f.roots))
    (hsf : s ∈ f.roots) (j : Index) :
    (t.nodes.get? j).map (Node.without s) =
      if j = q then some (.scope pq (f.roots.erase s)) else t.nodes.get? j := by
  split
  · rename_i hj; rw [hj, hq]; rfl
  · rename_i hj
    rcases hnode : t.nodes.get? j with _ | ⟨pj, cs⟩ | ⟨o, r⟩
    · rfl
    · obtain ⟨f', hf', rfl⟩ := h.below?_of_scope hnode
      have hnot : s ∉ f'.roots := fun hs => hj (h.eq_of_mem_roots hf' hf hs hsf)
      rw [Option.map_some, Node.without, List.erase_of_not_mem hnot]
    · rfl

/-! ## A whole teardown -/

/-- What it means that the nodes of a list were taken out of a tree: their slots
    move on, and all other nodes stay, some with fewer children. -/
structure Torn (t : Tree ρ) (l : List Index) (t' : Tree ρ) : Prop where
  top : t'.top = t.top
  arena : t'.nodes.arena = t.nodes.arena
  gone : ∀ i ∈ l, t'.nodes.get? i = none
  rest : ∀ i, i ∉ l → (t'.nodes.get? i).map Node.bare = (t.nodes.get? i).map Node.bare
  generation : ∀ n, t'.nodes.generation? n =
    if n ∈ l.map (·.slot) then (t.nodes.generation? n).map (· + 1) else t.nodes.generation? n

/-- The nodes that a teardown of a scope with `g` below it removes. -/
def tornBy (t : Tree ρ) (s : Index) (g : Forest ρ) : List Index :=
  if s = t.top then g.indices else g.indices ++ [s]

/-- The scope that is current after a teardown. -/
def currentAfter (t : Tree ρ) (s : Index) : Index :=
  if t.isWithin s t.current then (t.parent? s).getD t.top else t.current

/-- A teardown by its walk. -/
theorem destroy_eq {cs : List Index} {left : Slots (Node ρ)}
    (hs : t.nodes.get? s = some (.scope p cs))
    (hwalk : walk t.top s (2 * t.size + 1) s (detach t.nodes p s) [] = (left, due)) :
    t.destroy s =
      (some ⟨due.reverse, t.size - left.size⟩, ⟨left, t.top, t.currentAfter s⟩) := by
  rw [currentAfter, parent?_of_get? hs]
  obtain ⟨nodes, top, current⟩ := t
  dsimp only [Tree.size] at hwalk
  simp only [Tree.destroy, scope?_eq_some_iff.2 hs, Tree.size, hwalk]

/-- Taking a scope off its parent does not touch the scope and what is below it. -/
theorem Shows.get?_detach (h : t.Shows w) (hg : w.below? s = some g)
    (hs : t.nodes.get? s = some (.scope p g.roots)) (hj : j ∉ g.indices → j = s) :
    (detach t.nodes p s).get? j = t.nodes.get? j := by
  by_cases ht : s = t.top
  · obtain ⟨cs, hcs⟩ := h.get?_top
    rw [ht, hcs] at hs; cases hs
    rfl
  · obtain ⟨q, f, pq, hgs, -, hq, -, hqg, hqs⟩ := h.above hg ht
    rw [hs] at hgs; cases hgs
    have hjq : j ≠ q := fun he => hqs (he ▸ hj (he ▸ hqg))
    simp only [detach, hq]
    exact Slots.get?_set_ne _ _ hjq

theorem Shows.steps_le (h : t.Shows w) (hg : w.below? s = some g) :
    g.steps + 1 ≤ 2 * t.size + 1 := by
  have hlen := (Forest.indices_prune h.nodup hg).length_eq
  rw [List.length_append, List.length_cons, ← h.size] at hlen
  have := g.steps_le
  omega

/-- The walk of a teardown finds every child it looks for: the arm for a child
    that is gone is not taken, and the bound on the steps is not met. -/
theorem Shows.walked (h : t.Shows w) (hg : w.below? s = some g)
    (hs : t.nodes.get? s = some (.scope p g.roots)) :
    Walked t.top s (2 * t.size + 1) s (detach t.nodes p s) []
      (if s = t.top then ((detach t.nodes p s).removeAll g.indices).set s (.scope p [])
        else (detach t.nodes p s).removeAll (g.indices ++ [s]), g.due.reverse) := by
  obtain ⟨hng, hsg, -⟩ := Forest.nodup_of_below? h.nodup hg
  refine walked_scope t.top ?_ ?_ hng hsg (h.steps_le hg)
  · rw [h.get?_detach hg hs fun _ => rfl, hs]
  · exact (h.held.below? hg).2.congr fun j hj => h.get?_detach hg hs fun hn => absurd hj hn

theorem Shows.nodup_append (h : t.Shows w) (hg : w.below? s = some g) :
    (g.indices ++ [s]).Nodup := by
  obtain ⟨hng, hsg, -⟩ := Forest.nodup_of_below? h.nodup hg
  simp only [List.nodup_append, List.nodup_singleton, List.mem_singleton]
  exact ⟨hng, trivial, fun j hj k hk hjk => hsg (hk ▸ hjk ▸ hj)⟩

theorem Shows.isSome_of_mem_append (h : t.Shows w) (hg : w.below? s = some g) :
    ∀ j ∈ g.indices ++ [s], (t.nodes.get? j).isSome := by
  intro j hj
  rw [List.mem_append, List.mem_singleton] at hj
  rcases hj with hj | rfl
  · exact h.mem_iff.1 (Forest.subset_of_below? h.nodup hg hj)
  · exact h.mem_iff.1 (Forest.mem_indices_of_below? hg)

/-- A tree that has lost a scope with all below it, and nothing else, shows the
    forest without that scope. -/
theorem Shows.prune (h : t.Shows w) (hg : w.below? s = some g) (hs : s ≠ t.top)
    (htop : t'.top = t.top)
    (hget : ∀ i, t'.nodes.get? i =
      if i ∈ g.indices ++ [s] then none else (t.nodes.get? i).map (Node.without s))
    (hcur : t'.current ∈ (w.prune s).scopes)
    (hsize : t'.size = t.size - (g.indices ++ [s]).length) : t'.Shows (w.prune s) := by
  have hmem : ∀ i, i ∈ (w.prune s).indices ↔ i ∈ w.indices ∧ i ∉ g.indices ++ [s] := by
    intro i
    rw [Forest.mem_prune_iff h.nodup hg, List.mem_append, List.mem_singleton, not_or]
  have hheld : (w.prune s).Held t'.nodes.get? none :=
    h.held.prune h.nodup (h.held.notMem_records (Forest.mem_scopes_of_below? hg)) fun i hi => by
      rw [hget, if_neg ((hmem i).1 hi).2]
  refine ⟨?_, hheld, (Forest.nodup_of_below? h.nodup hg).2.2.1, fun i hi => ?_, hcur, ?_⟩
  · obtain ⟨f, rfl⟩ := h.root
    exact ⟨f.prune s, by rw [Forest.prune, if_neg (Ne.symm hs), Forest.prune, htop]⟩
  · rw [hget] at hi
    split at hi
    · cases hi
    · rename_i hni
      rw [Option.isSome_map] at hi
      exact (hmem i).2 ⟨h.complete i hi, hni⟩
  · rw [hsize, h.size, (Forest.indices_prune h.nodup hg).length_eq]
    simp only [List.length_append, List.length_cons, List.length_nil]
    omega

/-- The teardown of a scope other than the top scope: all releases below it are
    due, the newest first; the scope is gone with all below it, and all else is
    as before, except that its parent has lost a child. -/
theorem Shows.destroy_scope (h : t.Shows w) (hg : w.below? s = some g) (hs : s ≠ t.top) :
    ∃ t', t.destroy s = (some ⟨g.due, g.indices.length + 1⟩, t') ∧ t'.Shows (w.prune s) ∧
      t.Torn (g.indices ++ [s]) t' ∧ t'.current = t.currentAfter s ∧
      ∀ i, t'.nodes.get? i =
        if i ∈ g.indices ++ [s] then none else (t.nodes.get? i).map (Node.without s) := by
  obtain ⟨q, f, pq, hgs, hf, hq, hsf, hqg, hqs⟩ := h.above hg hs
  have hnd := h.nodup_append hg
  -- the store after the scope was taken off its parent, and what the walk leaves of it
  obtain ⟨detached, hdet⟩ : ∃ d, d = t.nodes.set q (.scope pq (f.roots.erase s)) := ⟨_, rfl⟩
  obtain ⟨left, hleft⟩ : ∃ l, l = detached.removeAll (g.indices ++ [s]) := ⟨_, rfl⟩
  have hlive : ∀ j ∈ g.indices ++ [s], (detached.get? j).isSome := by
    intro j hj
    rw [hdet, Slots.isSome_get?_set]; exact h.isSome_of_mem_append hg j hj
  have hget : ∀ i, left.get? i =
      if i ∈ g.indices ++ [s] then none else (t.nodes.get? i).map (Node.without s) := by
    intro i
    rw [hleft, Slots.get?_removeAll, hdet, Slots.get?_set hq, h.map_without hf hq hsf i]
  have hsize : left.size = t.nodes.size - (g.indices ++ [s]).length := by
    rw [hleft, Slots.size_removeAll hnd hlive, hdet, Slots.size_set]
  have hwalk : walk t.top s (2 * t.size + 1) s (detach t.nodes (some q) s) [] =
      (left, g.due.reverse) := by
    have hd : detach t.nodes (some q) s = detached := by simp only [detach, hq, hdet]
    have hw := (h.walked hg hgs).walk_eq
    rwa [if_neg hs, hd, ← hleft, ← hd] at hw
  have hrun : t.destroy s =
      (some ⟨g.due, g.indices.length + 1⟩, ⟨left, t.top, t.currentAfter s⟩) := by
    have hlen := (Forest.indices_prune h.nodup hg).length_eq
    rw [List.length_append, List.length_cons, ← h.size, Tree.size] at hlen
    rw [List.length_append, List.length_singleton] at hsize
    have hremoved : t.size - left.size = g.indices.length + 1 := by
      rw [Tree.size]; omega
    rw [destroy_eq hgs hwalk, List.reverse_reverse, hremoved]
  have hcur : t.currentAfter s ∈ (w.prune s).scopes := by
    rw [Forest.mem_scopes_prune_iff h.nodup hg, currentAfter, parent?_of_get? hgs]
    split
    · exact ⟨Forest.mem_scopes_of_below? hf, hqg, hqs⟩
    · rename_i hnot
      rw [h.isWithin_iff h.current, not_or] at hnot
      refine ⟨h.current, fun hc => hnot.2 ⟨g, hg, ?_⟩, hnot.1⟩
      exact ((h.held.below? hg).2.mem_scopes_iff hc).2 (h.held.scope_of_mem h.current)
  refine ⟨_, hrun, h.prune hg hs rfl hget hcur hsize, ⟨rfl, ?_, fun i hi => ?_, fun i hi => ?_, ?_⟩,
    rfl, hget⟩
  · rw [hleft, Slots.arena_removeAll, hdet, Slots.arena_set]
  · rw [hget, if_pos hi]
  · rw [hget, if_neg hi, Option.map_map]
    congr 1
    funext node
    cases node <;> rfl
  · intro n
    rw [hleft, Slots.generation?_removeAll hnd hlive, hdet, Slots.generation?_set]

/-- The top scope has all other nodes below it. -/
theorem Shows.eq_top (h : t.Shows w) (hg : w.below? t.top = some g) : w = .scope t.top g .nil := by
  obtain ⟨f, rfl⟩ := h.root
  simp only [Forest.below?, if_true, Option.some.injEq] at hg
  rw [hg]

/-- Going back from the top scope leads nowhere else. -/
theorem Shows.currentAfter_top (h : t.Shows w) : t.currentAfter t.top = t.top := by
  obtain ⟨cs, htop⟩ := h.get?_top
  rw [currentAfter, parent?_of_get? htop, if_pos, Option.getD_none]
  refine (h.isWithin_iff h.current).2 ?_
  have hc := h.current
  obtain ⟨g, rfl⟩ := h.root
  simp only [Forest.scopes, List.mem_append, List.mem_singleton] at hc
  exact hc.symm.imp id fun hc => ⟨g, by simp [Forest.below?], hc⟩

/-- The teardown of the top scope: all releases are due, the newest first; only
    the top scope is left. -/
theorem Shows.destroy_top (h : t.Shows w) (hg : w.below? t.top = some g) :
    ∃ t', t.destroy t.top = (some ⟨g.due, g.indices.length⟩, t') ∧
      t'.Shows (.scope t.top .nil .nil) ∧ t.Torn g.indices t' ∧ t'.current = t.top := by
  have hw := h.eq_top hg
  obtain ⟨hng, htg, -⟩ := Forest.nodup_of_below? h.nodup hg
  have htop : t.nodes.get? t.top = some (.scope none g.roots) := by
    have hheld := h.held; rw [hw] at hheld; exact hheld.1
  have hlive : ∀ j ∈ g.indices, (t.nodes.get? j).isSome := fun j hj =>
    h.isSome_of_mem_append hg j (List.mem_append_left _ hj)
  have hgone : ∀ i, i ∉ g.indices → i ≠ t.top → t.nodes.get? i = none := by
    intro i hi ht
    rw [← Option.not_isSome_iff_eq_none, ← h.mem_iff, hw]
    simp [Forest.indices, hi, ht]
  -- what the walk leaves of the store
  obtain ⟨left, hleft⟩ : ∃ l, l = (t.nodes.removeAll g.indices).set t.top (.scope none []) :=
    ⟨_, rfl⟩
  have hget : ∀ i, left.get? i = if i = t.top then some (.scope none []) else none := by
    intro i
    have hself : (t.nodes.removeAll g.indices).get? t.top = some (.scope none g.roots) := by
      rw [Slots.get?_removeAll, if_neg htg, htop]
    rw [hleft, Slots.get?_set hself, Slots.get?_removeAll]
    split
    · rfl
    · rename_i ht
      split
      · rfl
      · rename_i hi; exact hgone i hi ht
  have hlen : t.size = g.indices.length + 1 := by
    rw [h.size, hw]; simp [Forest.indices]
  have hsize : left.size = 1 := by
    rw [hleft, Slots.size_set, Slots.size_removeAll hng hlive]
    rw [Tree.size] at hlen
    omega
  have hwalk : walk t.top t.top (2 * t.size + 1) t.top (detach t.nodes none t.top) [] =
      (left, g.due.reverse) := by
    have hwalked := (h.walked hg htop).walk_eq
    rwa [if_pos rfl, show detach t.nodes none t.top = t.nodes from rfl, ← hleft] at hwalked
  have hrun : t.destroy t.top = (some ⟨g.due, g.indices.length⟩, ⟨left, t.top, t.top⟩) := by
    have hremoved : t.size - left.size = g.indices.length := by omega
    rw [destroy_eq htop hwalk, List.reverse_reverse, hremoved, h.currentAfter_top]
  refine ⟨_, hrun, shows_alone hget rfl hsize, ⟨rfl, ?_, fun i hi => ?_, fun i hi => ?_, ?_⟩, rfl⟩
  · rw [hleft, Slots.arena_set, Slots.arena_removeAll]
  · rw [hget, if_neg fun ht : i = t.top => htg (ht ▸ hi)]
  · rw [hget]
    split
    · rename_i ht; rw [ht, htop]; rfl
    · rename_i ht; rw [hgone i hi ht]
  · intro n
    rw [hleft, Slots.generation?_set, Slots.generation?_removeAll hng hlive]

/-- The teardown of any scope that is alive. -/
theorem Shows.destroy (h : t.Shows w) (hg : w.below? s = some g) :
    ∃ t' w' removed, t.destroy s = (some ⟨g.due, removed⟩, t') ∧ t'.Shows w' ∧
      t.Torn (t.tornBy s g) t' := by
  by_cases hs : s = t.top
  · subst hs
    obtain ⟨t', hrun, hshows, htorn, -⟩ := h.destroy_top hg
    exact ⟨t', _, _, hrun, hshows, by rwa [tornBy, if_pos rfl]⟩
  · obtain ⟨t', hrun, hshows, htorn, -⟩ := h.destroy_scope hg hs
    exact ⟨t', _, _, hrun, hshows, by rwa [tornBy, if_neg hs]⟩

/-- The teardown of what is no scope does nothing. -/
theorem destroy_of_not_scope (hs : t.isScope s = false) : t.destroy s = (none, t) := by
  have hnone : t.scope? s = none := by simpa [isScope] using hs
  unfold Tree.destroy
  rw [hnone]

end Tree

end ScopedResources
