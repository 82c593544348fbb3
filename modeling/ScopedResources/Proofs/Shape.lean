/-
  The shape of an ownership tree, and how it grows.

  A tree shows a forest (`Tree.Shows`) if its store holds the forest, with the
  top scope around all, and nothing else, each node once.  This is the
  invariant of the tree: every operation leads from a tree that shows a forest
  to one that shows another, and the lemmas say which.

  * `Shows.push`, `Shows.reserve`, `Shows.commit`, `Shows.pop`, `Shows.enter`
  * `Shows.isWithin_iff`: the way up from a scope leads through exactly the
    scopes that the forest has above it.
-/
import ScopedResources.Proofs.Forest

namespace ScopedResources

/-- A node that begins in a scope, without children. -/
def Node.BeginsIn {ρ : Type} (q : Index) : Node ρ → Prop
  | .scope parent children => parent = some q ∧ children = []
  | .record owner _ => owner = q

/-- A node without children in front of its older siblings. -/
def Node.infront {ρ : Type} (i : Index) : Node ρ → Forest ρ → Forest ρ
  | .scope _ _, older => .scope i .nil older
  | .record _ release, older => .record i release older

namespace Tree

variable {ρ : Type} {t t' : Tree ρ} {w f g : Forest ρ} {i n s : Index}

/-- A tree shows a forest, its top scope included. -/
structure Shows (t : Tree ρ) (w : Forest ρ) : Prop where
  root : ∃ f, w = .scope t.top f .nil
  held : w.Held t.nodes.get? none
  nodup : w.indices.Nodup
  complete : ∀ i, (t.nodes.get? i).isSome → i ∈ w.indices
  current : t.current ∈ w.scopes
  size : t.size = w.indices.length

/-! ## Looking up -/

theorem scope?_eq_some_iff {p : Option Index} {cs : List Index} :
    t.scope? i = some (p, cs) ↔ t.nodes.get? i = some (.scope p cs) := by
  unfold scope?
  rcases t.nodes.get? i with _ | ⟨q, ds⟩ | ⟨o, r⟩ <;> simp

theorem record?_eq_some_iff {o : Index} {r : Option ρ} :
    t.record? i = some (o, r) ↔ t.nodes.get? i = some (.record o r) := by
  unfold record?
  rcases t.nodes.get? i with _ | ⟨q, ds⟩ | ⟨o', r'⟩ <;> simp

theorem isScope_iff : t.isScope i = true ↔ ∃ p cs, t.nodes.get? i = some (.scope p cs) := by
  simp only [isScope, Option.isSome_iff_exists, Prod.exists, scope?_eq_some_iff]

theorem parent?_of_get? {p : Option Index} {cs : List Index}
    (h : t.nodes.get? i = some (.scope p cs)) : t.parent? i = p := by
  simp [parent?, scope?_eq_some_iff.2 h]

theorem release?_eq_some_iff {r : ρ} :
    t.release? i = some r ↔ ∃ o, t.nodes.get? i = some (.record o (some r)) := by
  simp only [release?, Option.bind_eq_some_iff, Prod.exists, record?_eq_some_iff]
  constructor
  · rintro ⟨o, r', h, rfl⟩; exact ⟨o, h⟩
  · rintro ⟨o, h⟩; exact ⟨o, _, h, rfl⟩

namespace Shows

theorem mem_iff (h : t.Shows w) : i ∈ w.indices ↔ (t.nodes.get? i).isSome :=
  ⟨h.held.isSome_of_mem, h.complete i⟩

theorem mem_scopes_iff (h : t.Shows w) : i ∈ w.scopes ↔ t.isScope i = true := by
  rw [isScope_iff]
  refine ⟨h.held.scope_of_mem, fun hs => ?_⟩
  have hi : i ∈ w.indices := by
    obtain ⟨p, cs, hs⟩ := hs
    exact h.complete i (by rw [hs]; rfl)
  exact (h.held.mem_scopes_iff hi).2 hs

theorem exists_below? (h : t.Shows w) (hi : t.isScope i = true) : ∃ f, w.below? i = some f :=
  Forest.exists_below? (h.mem_scopes_iff.2 hi)

theorem mem_records_iff (h : t.Shows w) :
    i ∈ w.records ↔ ∃ o r, t.nodes.get? i = some (.record o r) := by
  refine ⟨h.held.record_of_mem, fun hr => ?_⟩
  have hi : i ∈ w.indices := by
    obtain ⟨o, r, hr⟩ := hr
    exact h.complete i (by rw [hr]; rfl)
  exact (h.held.mem_records_iff hi).2 hr

theorem top_mem (h : t.Shows w) : t.top ∈ w.scopes := by
  obtain ⟨f, rfl⟩ := h.root
  simp [Forest.scopes]

theorem isScope_current (h : t.Shows w) : t.isScope t.current = true :=
  h.mem_scopes_iff.1 h.current

theorem get?_top (h : t.Shows w) : ∃ cs, t.nodes.get? t.top = some (.scope none cs) := by
  obtain ⟨f, rfl⟩ := h.root
  exact ⟨_, h.held.1⟩

/-- All but the top scope lie in a scope that has them as children. -/
theorem holder (h : t.Shows w) (hi : i ∈ w.indices) (ht : i ≠ t.top) :
    ∃ node q g, t.nodes.get? i = some node ∧ node.holder = some q ∧ w.below? q = some g ∧
      i ∈ g.roots := by
  obtain ⟨node, hget, ⟨-, hr⟩ | ⟨q, g, hq, hg, hr⟩⟩ := h.held.holder_of_mem h.nodup hi
  · obtain ⟨f, rfl⟩ := h.root
    simp only [Forest.roots, List.mem_singleton] at hr
    exact absurd hr ht
  · exact ⟨node, q, g, hget, hq, hg, hr⟩

/-- The scope that a scope's parent link names is alive. -/
theorem parent_mem (h : t.Shows w) {q : Index} {cs : List Index}
    (hi : t.nodes.get? i = some (.scope (some q) cs)) : q ∈ w.scopes := by
  have hne : i ≠ t.top := by
    intro he
    obtain ⟨ds, ht⟩ := h.get?_top
    rw [he, ht] at hi; cases hi
  obtain ⟨node, q', g, hget, hq, hg, -⟩ := h.holder (h.complete i (by rw [hi]; rfl)) hne
  rw [hi] at hget; cases hget; cases hq
  exact Forest.mem_scopes_of_below? hg

/-- The scope that owns a record is alive, and has the record as a child. -/
theorem owner_mem (h : t.Shows w) {o : Index} {r : Option ρ}
    (hi : t.nodes.get? i = some (.record o r)) : ∃ g, w.below? o = some g ∧ i ∈ g.roots := by
  have hne : i ≠ t.top := by
    intro he
    obtain ⟨ds, ht⟩ := h.get?_top
    rw [he, ht] at hi; cases hi
  obtain ⟨node, q, g, hget, hq, hg, hr⟩ := h.holder (h.complete i (by rw [hi]; rfl)) hne
  rw [hi] at hget; cases hget; cases hq
  exact ⟨g, hg, hr⟩

end Shows

/-! ## The beginning -/

/-- A tree with nothing but an empty top scope. -/
theorem shows_alone (hget : ∀ i, t.nodes.get? i = if i = t.top then some (.scope none []) else none)
    (hcur : t.current = t.top) (hsize : t.size = 1) : t.Shows (.scope t.top .nil .nil) where
  root := ⟨.nil, rfl⟩
  held := ⟨by rw [hget, if_pos rfl]; rfl, trivial, trivial⟩
  nodup := by simp [Forest.indices]
  complete i hi := by
    rw [hget] at hi
    by_cases ht : i = t.top
    · simp [Forest.indices, ht]
    · rw [if_neg ht] at hi; cases hi
  current := by simp [Forest.scopes, hcur]
  size := hsize

theorem get?_new (arena : UInt32) (i : Index) :
    (Tree.new (ρ := ρ) arena).nodes.get? i =
      if i = ⟨arena, 0, 0⟩ then some (.scope none []) else none := by
  split
  · rename_i hi
    rw [hi]
    simp [new, Slots.get?, Slot.valueAt?]
  · rename_i hi
    rw [Option.eq_none_iff_forall_ne_some]
    intro node hn
    obtain ⟨ha, hs⟩ := Slots.get?_eq_some_iff.1 hn
    obtain ⟨hlt, he⟩ := Array.getElem?_eq_some_iff.1 hs
    have h0 : i.slot.toNat = 0 := by simpa [new] using hlt
    simp only [new, h0, List.getElem_toArray, List.getElem_cons_zero] at he
    injection he with _ hg
    exact hi (Index.eq_of_eq ha (UInt32.toNat_inj.1 h0) hg.symm)

theorem shows_new (arena : UInt32) :
    (Tree.new (ρ := ρ) arena).Shows (.scope ⟨arena, 0, 0⟩ .nil .nil) :=
  shows_alone (get?_new arena) rfl rfl

/-! ## Growing -/

theorem indices_infront (i : Index) (node : Node ρ) (older : Forest ρ) :
    (node.infront i older).indices = i :: older.indices := by
  cases node <;> rfl

theorem roots_infront (i : Index) (node : Node ρ) (older : Forest ρ) :
    (node.infront i older).roots = i :: older.roots := by
  cases node <;> rfl

/-- What adding a child to a live current scope does to the store. -/
theorem addChild_some {node : Node ρ} {p : Option Index} {cs : List Index}
    (hc : t.nodes.get? t.current = some (.scope p cs)) (h : t.addChild node = (some i, t')) :
    ∃ nodes, Slots.Inserted t.nodes node i nodes ∧
      nodes.get? t.current = some (.scope p cs) ∧
      t' = { t with nodes := nodes.set t.current (.scope p (i :: cs)) } := by
  obtain ⟨nodes, top, current⟩ := t
  simp only [addChild] at h
  rcases hins : nodes.insert node with ⟨_ | j, nodes'⟩
  · rw [hins] at h; cases h
  have hI := Slots.insert_some hins
  have hne : current ≠ j := by
    intro he
    have := hI.fresh
    rw [← he, hc] at this; cases this
  have hc' : nodes'.get? current = some (.scope p cs) := by rw [hI.other _ hne, hc]
  rw [hins] at h
  simp only [hc'] at h
  cases h
  exact ⟨nodes', hI, hc', rfl⟩

theorem addChild_none {node : Node ρ} (h : t.addChild node = (none, t')) : t' = t := by
  obtain ⟨nodes, top, current⟩ := t
  simp only [addChild] at h
  rcases hins : nodes.insert node with ⟨_ | j, nodes'⟩
  · rw [hins] at h; cases h
    rw [Slots.insert_none hins]
  · rw [hins] at h
    dsimp only at h
    split at h <;> cases h

/-- The new child is the newest one of the current scope. -/
theorem Shows.addChild (h : t.Shows w) {node : Node ρ} (hnode : node.BeginsIn t.current)
    (ha : t.addChild node = (some i, t')) :
    t'.Shows (w.mapBelow t.current (node.infront i)) ∧ t'.top = t.top ∧ t'.current = t.current ∧
      i ∉ w.indices := by
  obtain ⟨g, hg⟩ := Forest.exists_below? h.current
  obtain ⟨⟨p, hc⟩, hgh⟩ := h.held.below? hg
  obtain ⟨nodes, hI, hc', rfl⟩ := addChild_some hc ha
  have hi : i ∉ w.indices := by
    intro hi
    have := h.mem_iff.1 hi
    rw [hI.fresh] at this; cases this
  have hperm : (w.mapBelow t.current (node.infront i)).indices.Perm (i :: w.indices) :=
    Forest.indices_mapBelow (l := [i]) (m := []) h.nodup hg (by rw [indices_infront]; rfl)
  have hic : i ≠ t.current := fun he => hi (he ▸ Forest.mem_indices_of_below? hg)
  have hother : ∀ j, j ≠ i → j ≠ t.current →
      (nodes.set t.current (.scope p (i :: g.roots))).get? j = t.nodes.get? j := by
    intro j hji hjc
    rw [Slots.get?_set_ne _ _ hjc, hI.other j hji]
  have hself : (nodes.set t.current (.scope p (i :: g.roots))).get? i = some node := by
    rw [Slots.get?_set_ne _ _ hic, hI.self]
  have hgi : i ∉ g.indices := fun hj => hi (Forest.subset_of_below? h.nodup hg hj)
  have hgc : t.current ∉ g.indices := (Forest.nodup_of_below? h.nodup hg).2.1
  have hgheld : g.Held (nodes.set t.current (.scope p (i :: g.roots))).get? (some t.current) :=
    hgh.congr fun j hj => hother j (fun he => hgi (he ▸ hj)) fun he => hgc (he ▸ hj)
  have hheld : (w.mapBelow t.current (node.infront i)).Held
      (nodes.set t.current (.scope p (i :: g.roots))).get? none := by
    refine h.held.mapBelow h.nodup hg (fun q hq => ?_) (fun j hj hjc _ => ?_) ?_
    · rw [hc] at hq; cases hq
      rw [Slots.get?_set_self hc', roots_infront]
    · exact hother j (fun he => hi (he ▸ hj)) hjc
    · cases node with
      | scope q cs =>
        obtain ⟨rfl, rfl⟩ := hnode
        exact ⟨hself, trivial, hgheld⟩
      | record o r =>
        cases hnode
        exact ⟨⟨_, rfl, hself⟩, hgheld⟩
  refine ⟨⟨?_, hheld, ?_, ?_, ?_, ?_⟩, rfl, rfl, hi⟩
  · obtain ⟨f, rfl⟩ := h.root
    simp only [Forest.mapBelow]
    split
    · exact ⟨_, rfl⟩
    · exact ⟨_, rfl⟩
  · exact hperm.nodup_iff.2 (List.nodup_cons.2 ⟨hi, h.nodup⟩)
  · intro j hj
    rw [hperm.mem_iff, List.mem_cons]
    by_cases hji : j = i
    · exact .inl hji
    · rw [Slots.isSome_get?_set, hI.other j hji] at hj
      exact .inr (h.complete j hj)
  · refine (hheld.mem_scopes_iff ?_).2 ⟨_, _, Slots.get?_set_self hc'⟩
    exact hperm.symm.subset (List.mem_cons_of_mem _ (Forest.mem_indices_of_below? hg))
  · rw [Tree.size, Slots.size_set, hI.size, hperm.length_eq, List.length_cons, ← h.size]
    rfl

theorem get?_addChild {node : Node ρ} (hc : t.isScope t.current = true)
    (ha : t.addChild node = (some i, t')) : t'.nodes.get? i = some node := by
  obtain ⟨p, cs, hc⟩ := isScope_iff.1 hc
  obtain ⟨nodes, hI, hc', rfl⟩ := addChild_some hc ha
  have hne : i ≠ t.current := by
    intro he
    have := hI.fresh
    rw [he, hc] at this; cases this
  exact (Slots.get?_set_ne _ _ hne).trans hI.self

theorem get?_addChild_current {node : Node ρ} {p : Option Index} {cs : List Index}
    (hc : t.nodes.get? t.current = some (.scope p cs)) (ha : t.addChild node = (some i, t')) :
    t'.nodes.get? t.current = some (.scope p (i :: cs)) := by
  obtain ⟨nodes, -, hc', rfl⟩ := addChild_some hc ha
  exact Slots.get?_set_self hc'

theorem get?_addChild_ne {node : Node ρ} (hc : t.isScope t.current = true)
    (ha : t.addChild node = (some i, t')) (hn : n ≠ i) (hnc : n ≠ t.current) :
    t'.nodes.get? n = t.nodes.get? n := by
  obtain ⟨p, cs, hc⟩ := isScope_iff.1 hc
  obtain ⟨nodes, hI, -, rfl⟩ := addChild_some hc ha
  exact (Slots.get?_set_ne _ _ hnc).trans (hI.other n hn)

theorem get?_push (hc : t.isScope t.current = true) (hp : t.push = (some i, t')) :
    t'.nodes.get? i = some (.scope (some t.current) []) := by
  rcases ha : t.addChild (.scope (some t.current) []) with ⟨_ | j, u⟩
  · simp [Tree.push, ha] at hp
  simp only [Tree.push, ha, Prod.mk.injEq, Option.some.injEq] at hp
  obtain ⟨rfl, rfl⟩ := hp
  have hu := get?_addChild hc ha
  exact hu

/-- Pushing adds a scope as the newest child of the current one, and makes it
    current. -/
theorem Shows.push (h : t.Shows w) (hp : t.push = (some i, t')) :
    t'.Shows (w.mapBelow t.current (.scope i .nil)) ∧ t'.top = t.top ∧ t'.current = i ∧
      i ∉ w.indices := by
  have hi := get?_push h.isScope_current hp
  rcases ha : t.addChild (.scope (some t.current) []) with ⟨_ | j, u⟩
  · simp [Tree.push, ha] at hp
  simp only [Tree.push, ha, Prod.mk.injEq, Option.some.injEq] at hp
  obtain ⟨rfl, rfl⟩ := hp
  have hnew : (Node.scope (some t.current) [] : Node ρ).BeginsIn t.current := ⟨rfl, rfl⟩
  obtain ⟨hu, htop, -, hj⟩ := h.addChild hnew ha
  refine ⟨⟨hu.root, hu.held, hu.nodup, hu.complete, ?_, hu.size⟩, htop, rfl, hj⟩
  exact hu.mem_scopes_iff.2 (isScope_iff.2 ⟨some t.current, [], hi⟩)

theorem push_none (hp : t.push = (none, t')) : t' = t := by
  rcases ha : t.addChild (.scope (some t.current) []) with ⟨_ | j, u⟩
  · simp only [Tree.push, ha, Prod.mk.injEq, true_and] at hp
    rw [← hp, addChild_none ha]
  · simp [Tree.push, ha] at hp

/-- Reserving adds a record as the newest child of the current scope. -/
theorem Shows.reserve (h : t.Shows w) (hr : t.reserve = (some i, t')) :
    t'.Shows (w.mapBelow t.current (.record i none)) ∧ t'.top = t.top ∧ t'.current = t.current ∧
      i ∉ w.indices := by
  have hnew : (Node.record t.current none : Node ρ).BeginsIn t.current := rfl
  exact h.addChild hnew hr

theorem reserve_none (hr : t.reserve = (none, t')) : t' = t :=
  addChild_none hr

/-! ## Moving about -/

theorem top_pop (t : Tree ρ) : t.pop.top = t.top := by
  unfold pop; split <;> rfl

theorem nodes_pop (t : Tree ρ) : t.pop.nodes = t.nodes := by
  unfold pop; split <;> rfl

theorem current_pop (t : Tree ρ) : t.pop.current = (t.parent? t.current).getD t.current := by
  unfold pop
  split
  · rename_i h; simp [h]
  · rename_i h; simp [h]

/-- Another scope is current, and nothing else has changed. -/
theorem Shows.moved (h : t.Shows w) (hn : t'.nodes = t.nodes) (ht : t'.top = t.top)
    (hc : t'.current ∈ w.scopes) : t'.Shows w where
  root := by rw [ht]; exact h.root
  held := by rw [hn]; exact h.held
  nodup := h.nodup
  complete := by rw [hn]; exact h.complete
  current := hc
  size := by rw [Tree.size, hn]; exact h.size

theorem Shows.pop (h : t.Shows w) : t.pop.Shows w := by
  refine h.moved (nodes_pop t) (top_pop t) ?_
  rw [current_pop]
  obtain ⟨p, cs, hc⟩ := isScope_iff.1 h.isScope_current
  rw [parent?_of_get? hc]
  cases p with
  | none => exact h.current
  | some q => exact h.parent_mem hc

theorem Shows.enter (h : t.Shows w) (i : Index) : (t.enter i).Shows w := by
  refine h.moved rfl rfl ?_
  unfold Tree.enter
  dsimp only
  split
  · rename_i hs; exact h.mem_scopes_iff.2 hs
  · exact h.top_mem

/-! ## Records -/

theorem commit_of_record {r : ρ} {o : Index} {old : Option ρ}
    (h : t.nodes.get? i = some (.record o old)) :
    t.commit i r = (true, { t with nodes := t.nodes.set i (.record o (some r)) }) := by
  simp [commit, h]

theorem commit_of_not_record {r : ρ} (h : ∀ o old, t.nodes.get? i ≠ some (.record o old)) :
    t.commit i r = (false, t) := by
  unfold commit
  split
  · rename_i o old hr; exact absurd hr (h o old)
  · rfl

theorem Shows.commit (h : t.Shows w) {r : ρ} {o : Index} {old : Option ρ}
    (hr : t.nodes.get? i = some (.record o old)) :
    (t.commit i r).2.Shows (w.attach i r) := by
  rw [commit_of_record hr]
  refine ⟨?_, ?_, ?_, ?_, ?_, ?_⟩
  · obtain ⟨f, rfl⟩ := h.root; exact ⟨_, rfl⟩
  · exact Forest.Held.attach hr (Slots.get?_set_self hr) (fun j hj => Slots.get?_set_ne _ _ hj) h.held
  · rw [Forest.indices_attach]; exact h.nodup
  · intro j hj
    rw [Forest.indices_attach]
    exact h.complete j (by rwa [Slots.isSome_get?_set] at hj)
  · rw [Forest.scopes_attach]; exact h.current
  · rw [Tree.size, Slots.size_set, Forest.indices_attach, ← h.size]; rfl

/-! ## The way up -/

/-- The way up from a scope: the scope, its parent, and so on. -/
inductive Climb (t : Tree ρ) : Index → List Index → Prop
  | last {n : Index} : t.parent? n = none → Climb t n [n]
  | next {n m : Index} {path : List Index} :
    t.parent? n = some m → Climb t m path → Climb t n (n :: path)

theorem isWithinBounded_iff {path : List Index} (hc : t.Climb n path) :
    ∀ {bound : Nat}, path.length ≤ bound + 1 → (t.isWithinBounded s bound n = true ↔ s ∈ path) := by
  induction hc with
  | @last n hp =>
    intro bound _
    cases bound with
    | zero =>
      rw [isWithinBounded, beq_iff_eq, List.mem_singleton]
      exact eq_comm
    | succ b =>
      rw [isWithinBounded, hp]
      by_cases hn : n = s
      · simp [hn]
      · simp [hn, Ne.symm hn]
  | @next n m path hp hc ih =>
    intro bound hb
    have hpos : 0 < path.length := by cases hc <;> simp
    cases bound with
    | zero => simp only [List.length_cons] at hb; omega
    | succ b =>
      rw [isWithinBounded, hp]
      by_cases hn : n = s
      · simp [hn]
      · have hb' : path.length ≤ b + 1 := by simpa using hb
        simp [hn, Ne.symm hn, ih hb']

/-- The way up from a scope of a forest leads through the scopes that are above
    it in the forest, and goes on from where the forest is. -/
theorem climb_of_mem : ∀ {f : Forest ρ} {p : Option Index} {path : List Index},
    f.Held t.nodes.get? p → f.indices.Nodup →
    (p = none ∧ path = [] ∨ ∃ q, p = some q ∧ t.Climb q path) → n ∈ f.scopes →
    ∃ c, t.Climb n (c ++ path) ∧ c.length ≤ f.indices.length ∧
      ∀ s, s ∈ c ↔ n = s ∨ ∃ g, f.below? s = some g ∧ n ∈ g.scopes
  | .record j r older, p, path, hf, hn, hp, hm => by
    obtain ⟨c, hc, hl, hs⟩ := climb_of_mem hf.2 (Forest.nodup_record.1 hn).2 hp hm
    exact ⟨c, hc, Nat.le_succ_of_le hl, hs⟩
  | .scope j below older, p, path, ⟨hj, hb, ho⟩, hn, hp, hm => by
    obtain ⟨hnb, hno, -⟩ := Forest.nodup_scope.1 hn
    have hpj : t.parent? j = p := parent?_of_get? hj
    have hcj : t.Climb j (j :: path) := by
      rcases hp with ⟨rfl, rfl⟩ | ⟨q, rfl, hq⟩
      · exact .last hpj
      · exact .next hpj hq
    simp only [Forest.scopes, List.mem_append, List.mem_cons] at hm
    rcases hm with hm | rfl | hm
    · obtain ⟨c, hc, hl, hs⟩ := climb_of_mem hb hnb (.inr ⟨j, rfl, hcj⟩) hm
      refine ⟨c ++ [j], by simpa using hc, ?_, fun s => ?_⟩
      · simp only [List.length_append, List.length_cons, List.length_nil, Forest.indices]
        omega
      · rw [List.mem_append, List.mem_singleton, hs, Forest.around_below hn hm, or_assoc]
    · refine ⟨[n], hcj, ?_, fun s => ?_⟩
      · simp only [List.length_cons, List.length_nil, List.length_append, Forest.indices]
        omega
      · rw [List.mem_singleton, or_iff_left (Forest.not_around_front hn), eq_comm]
    · obtain ⟨c, hc, hl, hs⟩ := climb_of_mem ho hno hp hm
      refine ⟨c, hc, ?_, fun s => ?_⟩
      · simp only [List.length_append, List.length_cons, Forest.indices]
        omega
      · rw [hs, Forest.around_older hn hm]

/-- The way up from a scope leads to the top, through exactly the scopes that the
    scope is within. -/
theorem Shows.climb (h : t.Shows w) (hn : n ∈ w.scopes) :
    ∃ path, t.Climb n path ∧ path.length ≤ t.size ∧
      ∀ s, s ∈ path ↔ n = s ∨ ∃ g, w.below? s = some g ∧ n ∈ g.scopes := by
  obtain ⟨c, hc, hl, hs⟩ := climb_of_mem h.held h.nodup (.inl ⟨rfl, rfl⟩) hn
  exact ⟨c, by simpa using hc, by rw [h.size]; exact hl, hs⟩

theorem Shows.isWithin_iff (h : t.Shows w) (hn : n ∈ w.scopes) :
    t.isWithin s n = true ↔ n = s ∨ ∃ g, w.below? s = some g ∧ n ∈ g.scopes := by
  obtain ⟨path, hc, hl, hs⟩ := h.climb hn
  rw [isWithin, isWithinBounded_iff hc (by omega), hs]

theorem isWithinBounded_enter (t : Tree ρ) (p a : Index) :
    ∀ (bound : Nat) (n : Index), (t.enter p).isWithinBounded a bound n = t.isWithinBounded a bound n
  | 0, _ => rfl
  | bound + 1, n => by
    have hparent : (t.enter p).parent? n = t.parent? n := rfl
    simp only [isWithinBounded, hparent, isWithinBounded_enter t p a bound]

/-- What is within what does not depend on where the current scope is. -/
theorem isWithin_enter (t : Tree ρ) (p a n : Index) : (t.enter p).isWithin a n = t.isWithin a n :=
  isWithinBounded_enter t p a _ n

/-- A record is below a scope if and only if its owner is within that scope. -/
theorem Shows.mem_below_iff (h : t.Shows w) (hg : w.below? s = some g) {o : Index} {r : Option ρ}
    (hi : t.nodes.get? i = some (.record o r)) : i ∈ g.indices ↔ t.isWithin s o = true := by
  obtain ⟨f, hf, hif⟩ := h.owner_mem hi
  obtain ⟨hng, hsg, -⟩ := Forest.nodup_of_below? h.nodup hg
  rw [h.isWithin_iff (Forest.mem_scopes_of_below? hf)]
  constructor
  · intro hig
    obtain ⟨node, hnode, ⟨ho, -⟩ | ⟨q, f', ho, hf', -⟩⟩ :=
      (h.held.below? hg).2.holder_of_mem hng hig
    · rw [hi] at hnode; cases hnode
      cases ho
      exact .inl rfl
    · rw [hi] at hnode; cases hnode
      cases ho
      exact .inr ⟨g, hg, Forest.mem_scopes_of_below? hf'⟩
  · rintro (rfl | ⟨g', hg', ho⟩)
    · rw [hg] at hf; cases hf
      exact Forest.mem_indices_of_mem_roots hif
    · rw [hg] at hg'; cases hg'
      rw [Forest.below?_below? h.nodup hg ho] at hf
      exact Forest.subset_of_below? hng hf (Forest.mem_indices_of_mem_roots hif)

end Tree

end ScopedResources
