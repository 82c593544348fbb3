/-
  Regions: a tree as it is seen from one of its scopes.

  While a protected call runs, what it reserves lies below its boundary, and what
  was there before lies beside it.  As long as scopes are left in the order in
  which they were begun, the current scope stays on the spine of the part below the
  boundary, whatever order there is in the rest of the tree.

  * `Tree.Region` says so, with one lemma for each operation.
  * `Shift` is what an operation does to the releases that a teardown of the region
    runs.
  * `Tree.Region.change`: every change inside of a region leaves a region, leaves what
    is old alone, and shifts what is due.
-/
import ScopedResources.Proofs.Order
import ScopedResources.Proofs.ProtectedCall
import ScopedResources.Proofs.Undoing

namespace ScopedResources

namespace Forest

variable {ρ : Type} {f g : Forest ρ} {b c i s : Index} {h : Forest ρ → Forest ρ}

/-- Changes what is below a scope `c` in what is below a scope `b`, where `c` may be
    `b` itself. -/
def mapWithin (b c : Index) (h : Forest ρ → Forest ρ) (g : Forest ρ) : Forest ρ :=
  if b = c then h g else g.mapBelow c h

theorem mapBelow_scope_nil (b c : Index) (h : Forest ρ → Forest ρ) (g : Forest ρ) :
    (scope b g nil).mapBelow c h = scope b (g.mapWithin b c h) nil := by
  rw [mapBelow, mapWithin]
  split <;> rfl

theorem below?_mapBelow : ∀ {f : Forest ρ}, f.indices.Nodup → f.below? b = some g →
    c ∈ (scope b g nil).indices → (f.mapBelow c h).below? b = some (g.mapWithin b c h)
  | record i _ older, hn, hg, hc => by
    exact below?_mapBelow (f := older) (nodup_record.1 hn).2 hg hc
  | scope i below older, hn, hg, hc => by
    obtain ⟨hnb, hno, hib, hio, hd⟩ := nodup_scope.1 hn
    have hcg : c ∈ g.indices ∨ c = b := by simpa [indices] using hc
    rcases below?_scope hg with ⟨rfl, rfl⟩ | ⟨hi, hg'⟩ | ⟨hi, hb', hg'⟩
    · rw [mapBelow, mapWithin]
      split <;> simp [below?]
    · have hcb : c ∈ below.indices := by
        rcases hcg with hc | rfl
        · exact subset_of_below? hnb hg' hc
        · exact mem_indices_of_below? hg'
      have hic : i ≠ c := fun he => hib (he ▸ hcb)
      rw [mapBelow, if_neg hic, below?, if_neg hi, below?_mapBelow hnb hg' hc, Option.some_or]
    · have hco : c ∈ older.indices := by
        rcases hcg with hc | rfl
        · exact subset_of_below? hno hg' hc
        · exact mem_indices_of_below? hg'
      have hic : i ≠ c := fun he => hio (he ▸ hco)
      have hcb : c ∉ below.indices := fun h => hd c h hco
      rw [mapBelow, if_neg hic, mapBelow_of_notMem hcb, below?, if_neg hi, hb',
        below?_mapBelow hno hg' hc, Option.none_or]

theorem below?_attach {r : Index} {release : ρ} : ∀ {f : Forest ρ},
    (f.attach r release).below? s = (f.below? s).map (attach r release)
  | nil => rfl
  | record i _ older => below?_attach (f := older)
  | scope i below older => by
    rw [attach, below?, below?, below?_attach (f := below), below?_attach (f := older)]
    split
    · rfl
    · rcases below.below? s with _ | _ <;> rfl

theorem below?_prune : ∀ {f : Forest ρ}, f.indices.Nodup → f.below? b = some g → s ∈ g.scopes →
    (f.prune s).below? b = some (g.prune s)
  | record i _ older, hn, hg, hs => below?_prune (f := older) (nodup_record.1 hn).2 hg hs
  | scope i below older, hn, hg, hs => by
    obtain ⟨hnb, hno, hib, hio, hd⟩ := nodup_scope.1 hn
    have hsg := mem_indices_of_mem_scopes hs
    rcases below?_scope hg with ⟨rfl, rfl⟩ | ⟨hi, hg'⟩ | ⟨hi, hb', hg'⟩
    · have his : i ≠ s := fun he => hib (he ▸ hsg)
      rw [prune, if_neg his, below?, if_pos rfl]
    · have his : i ≠ s := fun he => hib (he ▸ subset_of_below? hnb hg' hsg)
      rw [prune, if_neg his, below?, if_neg hi, below?_prune hnb hg' hs, Option.some_or]
    · have hso := subset_of_below? hno hg' hsg
      have his : i ≠ s := fun he => hio (he ▸ hso)
      have hsb : s ∉ below.indices := fun h => hd s h hso
      rw [prune, if_neg his, prune_of_notMem hsb, below?, if_neg hi, hb', below?_prune hno hg' hs,
        Option.none_or]

/-! ### What a teardown releases -/

theorem due_mapBelow (hh : ∀ x, (h x).due = x.due) : ∀ f : Forest ρ, (f.mapBelow s h).due = f.due
  | nil => rfl
  | record i r older => by rw [mapBelow, due, due, due_mapBelow hh older]
  | scope i below older => by
    rw [mapBelow]
    split
    · rw [due, due, hh]
    · rw [due, due, due_mapBelow hh below, due_mapBelow hh older]

/-- What is below a scope on the spine comes before all else. -/
theorem Spine.due_prune : ∀ {f : Forest ρ}, f.Spine s → f.indices.Nodup → f.below? s = some g →
    f.due = g.due ++ (f.prune s).due
  | scope i below older, hf, hn, hg => by
    obtain ⟨hnb, -, hib, -, hd⟩ := nodup_scope.1 hn
    rw [Forest.prune]
    rcases below?_scope hg with ⟨rfl, rfl⟩ | ⟨hi, hg'⟩ | ⟨hi, -, hg'⟩
    · rw [if_pos rfl, due]
    · have hs := hd s (mem_indices_of_below? hg')
      rw [if_neg hi, prune_of_notMem hs, due, due, (hf.resolve_left hi).due_prune hnb hg',
        List.append_assoc]
    · have hs := (hf.resolve_left hi).mem_indices
      exact absurd (mem_indices_of_below? hg') (hd s hs)

theorem attach_of_notMem {release : ρ} : ∀ {f : Forest ρ}, i ∉ f.indices → f.attach i release = f
  | nil, _ => rfl
  | record j _ older, hi => by
    simp only [indices, List.mem_cons, not_or] at hi
    rw [attach, if_neg (Ne.symm hi.1), attach_of_notMem hi.2]
  | scope j below older, hi => by
    simp only [indices, List.mem_append, List.mem_cons, not_or] at hi
    rw [attach, attach_of_notMem hi.1, attach_of_notMem hi.2.2]

/-- A record that is given a release: it takes the place of the one that the record
    had, among what a teardown releases. -/
theorem Held.due_attach {get? : Index → Option (Node ρ)} {o : Index} {old : Option ρ} {release : ρ}
    (hr : get? i = some (.record o old)) : ∀ {f : Forest ρ} {p : Option Index}, f.Held get? p →
      f.indices.Nodup → i ∈ f.indices → ∃ l m, f.due = l ++ Tree.dueWith i old [] ++ m ∧
        (f.attach i release).due = l ++ [⟨i, release⟩] ++ m
  | record j r older, p, ⟨⟨o', _, hj⟩, ho⟩, hn, hi => by
    obtain ⟨hjo, hno⟩ := nodup_record.1 hn
    rw [Forest.attach, due, due]
    by_cases hji : j = i
    · subst hji
      rw [hr] at hj; cases hj
      refine ⟨[], older.due, Tree.dueWith_eq _ _ _, ?_⟩
      rw [if_pos rfl, attach_of_notMem hjo]
      rfl
    · obtain ⟨l, m, hd, hd'⟩ := ho.due_attach hr hno ((List.mem_cons.1 hi).resolve_left (Ne.symm hji))
      refine ⟨Tree.dueWith j r [] ++ l, m, ?_, ?_⟩
      · rw [Tree.dueWith_eq, hd]
        simp only [List.append_assoc]
      · rw [if_neg hji, Tree.dueWith_eq, hd']
        simp only [List.append_assoc]
  | scope j below older, p, ⟨hj, hb, ho⟩, hn, hi => by
    obtain ⟨hnb, hno, -, -, hdis⟩ := nodup_scope.1 hn
    simp only [indices, List.mem_append, List.mem_cons] at hi
    rw [Forest.attach, due, due]
    rcases hi with hi | rfl | hi
    · obtain ⟨l, m, hd, hd'⟩ := hb.due_attach hr hnb hi
      refine ⟨l, m ++ older.due, ?_, ?_⟩
      · rw [hd, List.append_assoc _ m]
      · rw [hd', attach_of_notMem (hdis i hi), List.append_assoc _ m]
    · rw [hr] at hj; cases hj
    · obtain ⟨l, m, hd, hd'⟩ := ho.due_attach hr hno hi
      refine ⟨below.due ++ l, m, ?_, ?_⟩
      · rw [hd]
        simp only [List.append_assoc]
      · rw [hd', attach_of_notMem fun h => hdis i h hi]
        simp only [List.append_assoc]

/-- A record that is new below a scope on the spine is the first to be released. -/
theorem Spine.due_attach {release : ρ} : ∀ {f : Forest ρ}, f.Spine c → f.indices.Nodup →
    i ∉ f.indices → ((f.mapBelow c (record i none)).attach i release).due = ⟨i, release⟩ :: f.due
  | scope j below older, hf, hn, hi => by
    obtain ⟨hnb, -, -, -, hd⟩ := nodup_scope.1 hn
    simp only [indices, List.mem_append, List.mem_cons, not_or] at hi
    rw [Forest.mapBelow]
    split
    · simp only [Forest.attach, due, if_pos, Tree.dueWith, attach_of_notMem hi.1, attach_of_notMem hi.2.2,
        List.cons_append]
    · rename_i hj
      have hb := hf.resolve_left hj
      rw [mapBelow_of_notMem (hd c hb.mem_indices), Forest.attach, due, due, hb.due_attach hnb hi.1,
        attach_of_notMem hi.2.2, List.cons_append]

end Forest

namespace Tree

variable {t t' : Tree Release} {w g w' g' : Forest Release} {old old' : Index → Prop}
  {b i j n p q s : Index} {node : Node Release}

/-! ## Regions -/

/-- A tree as it is seen from one of its scopes: `g` is what is below the scope `b`, the
    scope `q` is around it, and all else that is alive is `old`.  The current scope lies
    on the spine. -/
structure Region (t : Tree Release) (old : Index → Prop) (q b : Index) (w g : Forest Release) :
    Prop where
  shows : t.Shows w
  below : w.below? b = some g
  parent : t.parent? b = some q
  spine : (Forest.scope b g .nil).Spine t.current
  outside : ∀ i, old i ↔ i ∈ w.indices ∧ i ∉ (Forest.scope b g .nil).indices

theorem get?_of_parent? (h : t.parent? s = some p) : ∃ cs, t.nodes.get? s = some (.scope (some p) cs) := by
  obtain ⟨⟨p', cs⟩, hs, rfl⟩ := Option.bind_eq_some_iff.1 h
  exact ⟨cs, scope?_eq_some_iff.1 hs⟩

theorem get?_commit_ne (hj : j ≠ i) (r : Release) : (t.commit i r).2.nodes.get? j = t.nodes.get? j := by
  unfold commit
  split
  · exact Slots.get?_set_ne _ _ hj
  · rfl

namespace Region

theorem root (h : t.Region old q b w g) : t.nodes.get? b = some (.scope (some q) g.roots) := by
  obtain ⟨⟨p, hp⟩, -⟩ := h.shows.held.below? h.below
  have hparent := h.parent
  rw [parent?_of_get? hp] at hparent
  rw [hp, hparent]

theorem held (h : t.Region old q b w g) : (Forest.scope b g .nil).Held t.nodes.get? (some q) :=
  ⟨h.root, (h.shows.held.below? h.below).2, trivial⟩

theorem nodup (h : t.Region old q b w g) : (Forest.scope b g .nil).indices.Nodup := by
  rw [Forest.nodup_scope]
  obtain ⟨hn, hb, -⟩ := Forest.nodup_of_below? h.shows.nodup h.below
  exact ⟨hn, List.nodup_nil, hb, List.not_mem_nil, fun _ _ => List.not_mem_nil⟩

theorem subset (h : t.Region old q b w g) : (Forest.scope b g .nil).indices ⊆ w.indices := by
  intro i hi
  simp only [Forest.indices, List.mem_append, List.mem_singleton] at hi
  rcases hi with hi | rfl
  · exact Forest.subset_of_below? h.shows.nodup h.below hi
  · exact Forest.mem_indices_of_below? h.below

/-- What is below a scope of a region is the same in the region and in the tree. -/
theorem below?_eq (h : t.Region old q b w g) (hs : s ∈ (Forest.scope b g .nil).scopes) :
    w.below? s = (Forest.scope b g .nil).below? s := by
  simp only [Forest.scopes, List.mem_append, List.mem_singleton] at hs
  rcases hs with hs | rfl
  · have hsb : b ≠ s := by
      rintro rfl
      exact (Forest.nodup_of_below? h.shows.nodup h.below).2.1 (Forest.mem_indices_of_mem_scopes hs)
    rw [Forest.below?_below? h.shows.nodup h.below hs, Forest.below?, if_neg hsb, Forest.below?,
      Option.or_none]
  · rw [h.below, Forest.below?, if_pos rfl]

theorem notMem (h : t.Region old q b w g) (hi : old i) : i ∉ (Forest.scope b g .nil).indices :=
  ((h.outside i).1 hi).2

/-- Another scope of the spine is current, and nothing else has changed. -/
theorem moved (h : t.Region old q b w g) (hn : t'.nodes = t.nodes) (ht : t'.top = t.top)
    (hc : (Forest.scope b g .nil).Spine t'.current) : t'.Region old q b w g where
  shows := by
    refine h.shows.moved hn ht ((h.shows.mem_scopes_iff).2 ?_)
    obtain ⟨p, cs, hs⟩ := h.held.scope_of_mem hc.mem_scopes
    exact isScope_iff.2 ⟨p, cs, hs⟩
  below := h.below
  parent := by
    rw [parent?_of_get? (by rw [hn]; exact h.root)]
  spine := hc
  outside := h.outside

/-- The scope around one on the spine of a region is on the spine as well, and the
    tree knows it. -/
theorem spine_parent (h : t.Region old q b w g) (hs : (Forest.scope b g .nil).Spine s)
    (hne : s ≠ b) : ∃ p, t.parent? s = some p ∧ (Forest.scope b g .nil).Spine p := by
  obtain ⟨node, hnode, ⟨-, hr⟩ | ⟨p, f, hp, hf, hr⟩⟩ := h.held.holder_of_mem h.nodup hs.mem_indices
  · rw [Forest.roots, Forest.roots, List.mem_singleton] at hr
    exact absurd hr hne
  · obtain ⟨p', cs, hcs⟩ := h.held.scope_of_mem hs.mem_scopes
    rw [hnode] at hcs; cases hcs
    cases hp
    exact ⟨p, parent?_of_get? hnode, hs.of_below h.nodup hf (Forest.mem_indices_of_mem_roots hr)⟩

/-! ### Growing -/

/-- A region in which the current scope gets a child. -/
theorem addChild (h : t.Region old q b w g) (hnode : node.BeginsIn t.current)
    (ha : t.addChild node = (some i, t')) :
    t'.Region old q b (w.mapBelow t.current (node.infront i))
        (g.mapWithin b t.current (node.infront i)) ∧
      i ∉ w.indices ∧ ∀ j, old j → t'.nodes.get? j = t.nodes.get? j := by
  obtain ⟨p, cs, hc⟩ := isScope_iff.1 h.shows.isScope_current
  obtain ⟨hshows, htop, hcur, hi⟩ := h.shows.addChild hnode ha
  obtain ⟨x, hx⟩ := Forest.exists_below? h.spine.mem_scopes
  have hxw : w.below? t.current = some x := by rw [h.below?_eq h.spine.mem_scopes, hx]
  have hperm : ∀ {f : Forest Release}, f.indices.Nodup → f.below? t.current = some x →
      (f.mapBelow t.current (node.infront i)).indices.Perm (i :: f.indices) := fun hn hf =>
    Forest.indices_mapBelow (l := [i]) (m := []) hn hf (by rw [indices_infront]; rfl)
  have hother : ∀ j, j ≠ i → j ≠ t.current → t'.nodes.get? j = t.nodes.get? j := fun j =>
    get?_addChild_ne h.shows.isScope_current ha
  have hbi : b ≠ i := fun he => hi (he ▸ Forest.mem_indices_of_below? h.below)
  have hold : ∀ j, old j → j ≠ i ∧ j ≠ t.current := by
    intro j hj
    obtain ⟨hjw, hjr⟩ := (h.outside j).1 hj
    exact ⟨fun he => hi (he ▸ hjw), fun he => hjr (he ▸ h.spine.mem_indices)⟩
  refine ⟨⟨hshows, ?_, ?_, ?_, fun j => ?_⟩, hi, fun j hj => hother j (hold j hj).1 (hold j hj).2⟩
  · exact Forest.below?_mapBelow h.shows.nodup h.below h.spine.mem_indices
  · by_cases hbc : b = t.current
    · rw [hbc, parent?_of_get? (get?_addChild_current hc ha), ← parent?_of_get? hc, ← hbc, h.parent]
    · rw [parent?_of_get? ((hother b hbi hbc).trans h.root)]
  · rw [hcur, ← Forest.mapBelow_scope_nil]
    exact h.spine.mapBelow
  · rw [← Forest.mapBelow_scope_nil, (hperm h.shows.nodup hxw).mem_iff, (hperm h.nodup hx).mem_iff,
      h.outside, List.mem_cons, List.mem_cons]
    have hji : j ∈ w.indices → j ≠ i := fun hj he => hi (he ▸ hj)
    tauto

/-- What a pushed scope makes of a region; it is current and on the spine. -/
theorem push (h : t.Region old q b w g) (hp : t.push = (some i, t')) :
    t'.Region old q b (w.mapBelow t.current (.scope i .nil))
        (g.mapWithin b t.current (.scope i .nil)) ∧
      i ∉ w.indices ∧ ∀ j, old j → t'.nodes.get? j = t.nodes.get? j := by
  rcases ha : t.addChild (.scope (some t.current) []) with ⟨_ | j, u⟩
  · simp [Tree.push, ha] at hp
  simp only [Tree.push, ha, Prod.mk.injEq, Option.some.injEq] at hp
  obtain ⟨rfl, rfl⟩ := hp
  have hnew : (Node.scope (some t.current) [] : Node Release).BeginsIn t.current := ⟨rfl, rfl⟩
  obtain ⟨hu, hi, hold⟩ := h.addChild hnew ha
  refine ⟨hu.moved rfl rfl ?_, hi, hold⟩
  rw [← Forest.mapBelow_scope_nil]
  exact h.spine.push

theorem reserve (h : t.Region old q b w g) (hr : t.reserve = (some i, t')) :
    t'.Region old q b (w.mapBelow t.current (.record i none))
        (g.mapWithin b t.current (.record i none)) ∧
      i ∉ w.indices ∧ ∀ j, old j → t'.nodes.get? j = t.nodes.get? j := by
  have hnew : (Node.record t.current none : Node Release).BeginsIn t.current := rfl
  exact h.addChild hnew hr

/-! ### Records -/

/-- A record of the tree gets a release. -/
theorem attach (h : t.Region old q b w g) {o : Index} {before : Option Release} (r : Release)
    (hi : t.nodes.get? i = some (.record o before)) :
    (t.commit i r).2.Region old q b (w.attach i r) (g.attach i r) := by
  have hnodes : (t.commit i r).2.nodes = t.nodes.set i (.record o (some r)) := by
    rw [commit_of_record hi]
  have hbi : b ≠ i := by
    rintro rfl
    rw [h.root] at hi; cases hi
  refine ⟨h.shows.commit hi, by rw [Forest.below?_attach, h.below]; rfl, ?_, ?_, fun j => ?_⟩
  · rw [parent?_of_get? (by rw [hnodes, Slots.get?_set_ne _ _ hbi]; exact h.root)]
  · rw [commit_of_record hi]
    exact h.spine.attach
  · rw [Forest.indices_attach, h.outside]
    simp only [Forest.indices, Forest.indices_attach]

theorem kept_commit (r : Release) (hi : ¬ old i) :
    ∀ j, old j → (t.commit i r).2.nodes.get? j = t.nodes.get? j := by
  intro j hj
  refine get?_commit_ne ?_ r
  rintro rfl
  exact hi hj

/-- A record that is not old is in the region. -/
theorem mem_of_record (h : t.Region old q b w g) (hi : ¬ old i) {o : Index} {before : Option Release}
    (hr : t.nodes.get? i = some (.record o before)) : i ∈ g.indices := by
  rw [h.outside, not_and, not_not] at hi
  have hmem := hi (h.shows.complete i (by rw [hr]; rfl))
  simp only [Forest.indices, List.mem_append, List.mem_singleton] at hmem
  refine hmem.resolve_right ?_
  rintro rfl
  rw [h.root] at hr; cases hr

theorem due_attach (h : t.Region old q b w g) (hi : ¬ old i) {o : Index} {before : Option Release}
    (r : Release) (hr : t.nodes.get? i = some (.record o before)) :
    ∃ l m, g.due = l ++ dueWith i before [] ++ m ∧ (g.attach i r).due = l ++ [⟨i, r⟩] ++ m :=
  Forest.Held.due_attach hr (h.shows.held.below? h.below).2 (Forest.nodup_scope.1 h.nodup).1
    (h.mem_of_record hi hr)

/-- The release of a record that was reserved last is the first one of the region. -/
theorem due_newest (h : t.Region old q b w g) (hi : i ∉ w.indices) (r : Release) :
    ((g.mapWithin b t.current (.record i none)).attach i r).due = ⟨i, r⟩ :: g.due := by
  have hdue : (((Forest.scope b g .nil).mapBelow t.current (.record i none)).attach i r).due = _ :=
    h.spine.due_attach h.nodup fun hr => hi (h.subset hr)
  rw [Forest.mapBelow_scope_nil] at hdue
  simpa [Forest.attach, Forest.due] using hdue

/-! ### Tearing down -/

/-- A scope of the region, and what is below it. -/
theorem subset_of_below? {x : Forest Release} (h : t.Region old q b w g)
    (hs : s ∈ (Forest.scope b g .nil).scopes) (hsb : s ≠ b) (hx : w.below? s = some x) :
    s ∈ g.scopes ∧ x.indices ⊆ g.indices := by
  constructor
  · simp only [Forest.scopes, List.mem_append, List.mem_singleton] at hs
    exact hs.resolve_right hsb
  · rw [h.below?_eq hs, Forest.below?, if_neg (Ne.symm hsb), Forest.below?, Option.or_none] at hx
    exact Forest.subset_of_below? (Forest.nodup_scope.1 h.nodup).1 hx

/-- A scope of the spine is left for the scope around it and torn down: its releases
    were the first of the region, and what is old is as it was. -/
theorem destroy (h : t.Region old q b w g) (hs : (Forest.scope b g .nil).Spine s) (hsb : s ≠ b)
    (hp : t.parent? s = some p) :
    ((t.enter p).destroy s).2.Region old q b (w.prune s) (g.prune s) ∧
      g.due = Ledger.dueOf (t.enter p) s ++ (g.prune s).due ∧
      ∀ j, old j → ((t.enter p).destroy s).2.nodes.get? j = t.nodes.get? j := by
  obtain ⟨p', hp', hspine⟩ := h.spine_parent hs hsb
  rw [hp] at hp'; cases hp'
  obtain ⟨cs, hcs⟩ := get?_of_parent? hp
  obtain ⟨x, hx, hdue, htop, hcur, hget⟩ := destroy_enter h.shows hcs
  have hxr : (Forest.scope b g .nil).below? s = some x := by rw [← h.below?_eq hs.mem_scopes, hx]
  have hst : s ≠ t.top := by
    rintro rfl
    obtain ⟨ds, htop⟩ := h.shows.get?_top
    rw [htop] at hcs; cases hcs
  obtain ⟨p', f, pp, hgs, hf, hpp, hsf, hpx, hps⟩ := h.shows.above hx hst
  rw [hcs] at hgs; cases hgs
  have hprune : (Forest.scope b g .nil).prune s = .scope b (g.prune s) .nil := by
    rw [Forest.prune, if_neg (Ne.symm hsb), Forest.prune]
  have hshows : ((t.enter p).destroy s).2.Shows (w.prune s) := by
    obtain ⟨t', hrun, hshows, -⟩ := (h.shows.enter p).destroy_scope hx hst
    rw [hrun]
    exact hshows
  -- all that is torn down is in the region, and below its scope
  obtain ⟨hsg, hxg⟩ := h.subset_of_below? hs.mem_scopes hsb hx
  have hsub : x.indices ++ [s] ⊆ (Forest.scope b g .nil).indices := by
    intro j hj
    rw [List.mem_append, List.mem_singleton] at hj
    rcases hj with hj | rfl
    · exact List.mem_append_left _ (hxg hj)
    · exact hs.mem_indices
  refine ⟨⟨hshows, Forest.below?_prune h.shows.nodup h.below hsg, ?_, ?_, fun j => ?_⟩, ?_, fun j hj => ?_⟩
  · have hb := hget b
    rw [if_neg, h.root] at hb
    · exact parent?_of_get? hb
    · rw [List.mem_append, List.mem_singleton, not_or]
      refine ⟨fun hbx => ?_, Ne.symm hsb⟩
      exact (Forest.nodup_scope.1 h.nodup).2.2.1 (hxg hbx)
  · rw [hcur, ← hprune]
    exact hspine.prune h.nodup hxr hpx hps
  · rw [← hprune, Forest.mem_prune_iff h.shows.nodup hx, Forest.mem_prune_iff h.nodup hxr, h.outside]
    have hjx : j ∈ x.indices → j ∈ (Forest.scope b g .nil).indices := fun hj =>
      hsub (List.mem_append_left _ hj)
    have hjs : j = s → j ∈ (Forest.scope b g .nil).indices := fun hj => hj ▸ hs.mem_indices
    tauto
  · rw [hdue]
    have hall := hs.due_prune h.nodup hxr
    rw [hprune] at hall
    simpa [Forest.due] using hall
  · have hjr := h.notMem hj
    rw [hget, if_neg fun h => hjr (hsub h), h.shows.map_without hf hpp hsf, if_neg]
    rintro rfl
    exact hjr hspine.mem_indices

/-- A region inside of another one, at the same tree: its scope is on the spine. -/
theorem nested (h : t.Region old q b w g) (hin : t.Region old' p s w' g') (hs : ¬ old s)
    (hb : old' b) : (Forest.scope b g .nil).Spine s ∧ s ≠ b := by
  constructor
  · have hsr : s ∈ (Forest.scope b g .nil).scopes := by
      have hmem := (h.outside s).not.1 hs
      rw [not_and, not_not] at hmem
      exact (h.held.mem_scopes_iff (hmem (h.shows.complete s (by rw [hin.root]; rfl)))).2 ⟨_, _, hin.root⟩
    have hwithin : t.isWithin s t.current = true := by
      refine (hin.shows.isWithin_iff hin.shows.current).2 ?_
      have hcur := hin.spine.mem_scopes
      simp only [Forest.scopes, List.mem_append, List.mem_singleton] at hcur
      exact hcur.symm.imp id fun hc => ⟨g', hin.below, hc⟩
    rcases (h.shows.isWithin_iff h.shows.current).1 hwithin with hcur | ⟨x, hx, hcur⟩
    · rw [← hcur]
      exact h.spine
    · rw [h.below?_eq hsr] at hx
      exact h.spine.of_below h.nodup hx (Forest.mem_indices_of_mem_scopes hcur)
  · rintro rfl
    exact hin.notMem hb (List.mem_append_right _ (List.mem_singleton_self _))

end Region

/-- A scope that has just been pushed, as a region of its own. -/
theorem Shows.region_push (h : t.Shows w) (hp : t.push = (some s, t')) :
    ∃ w', t'.Region (fun i => (t.nodes.get? i).isSome) t.current s w' .nil := by
  obtain ⟨hshows, -, hcur, hs⟩ := h.push hp
  have hget := get?_push h.isScope_current hp
  obtain ⟨x, hx, hroots⟩ := hshows.below?_of_scope hget
  have hnil : x = .nil := by
    cases x with
    | nil => rfl
    | record i r older => cases hroots
    | scope i below older => cases hroots
  subst hnil
  obtain ⟨f, hf⟩ := Forest.exists_below? h.current
  have hperm : (w.mapBelow t.current (.scope s .nil)).indices.Perm (s :: w.indices) :=
    Forest.indices_mapBelow (l := [s]) (m := []) h.nodup hf .rfl
  refine ⟨_, hshows, hx, parent?_of_get? hget, by rw [hcur]; exact .inl rfl, fun i => ?_⟩
  rw [← h.mem_iff, hperm.mem_iff, List.mem_cons, Forest.indices, Forest.indices, List.nil_append,
    List.mem_singleton]
  have his : i ∈ w.indices → i ≠ s := fun hi he => hs (he ▸ hi)
  tauto

end Tree

/-! ## Changes in a region -/

/-- The releases are accounted for: what was due, and what has come, has run or is due
    still. Memory blocks and texts do not count, as writing to a block replaces its
    release. -/
def Counts (due due' into out : List (Due Release)) : Prop :=
  ∀ r : Release, (∀ payload, r ≠ .forget payload) →
    out.countP (·.release = r) + due'.countP (·.release = r) =
      due.countP (·.release = r) + into.countP (·.release = r)

/-- What a change does to the releases that a teardown of a region runs: those in `into`
    have come, and those in `out` have run. -/
structure Shift (due due' into out : List (Due Release)) : Prop where
  count : Counts due due' into out
  names : restored due = restored out ++ restored due'

variable {due : List (Due Release)} {t : Tree Release} {w g : Forest Release} {old : Index → Prop}
  {b i q : Index} {r : Release} {h : Hold}

theorem Shift.refl (due : List (Due Release)) : Shift due due [] [] :=
  ⟨fun _ _ => by simp, rfl⟩

/-- A release that was given to a record. -/
theorem Tree.Region.shift_commit (hR : t.Region old q b w g) (hi : ¬ old i) (hfree : t.release? i = none)
    (hr : r.name? = none) : ∃ w' g', (t.commit i r).2.Region old q b w' g' ∧
      Shift g.due g'.due [⟨i, r⟩] (if (t.commit i r).1 then [] else [⟨i, r⟩]) := by
  have hname : restored [⟨i, r⟩] = [] := List.filterMap_cons_none hr
  by_cases hrec : ∃ o before, t.nodes.get? i = some (.record o before)
  · obtain ⟨o, before, hrec⟩ := hrec
    have hbefore : before = none := by
      cases before with
      | none => rfl
      | some r₀ => rw [Tree.release?_eq_some_iff.2 ⟨o, hrec⟩] at hfree; cases hfree
    subst hbefore
    obtain ⟨l, m, hd, hd'⟩ := hR.due_attach hi r hrec
    refine ⟨_, _, hR.attach r hrec, fun r' _ => ?_, ?_⟩
    · rw [Tree.commit_of_record hrec, hd, hd']
      simp only [Tree.dueWith, List.countP_append, List.countP_nil, if_true, List.append_nil]
      omega
    · rw [Tree.commit_of_record hrec, hd, hd']
      simp [Tree.dueWith, restored, hr]
  · rw [Tree.commit_of_not_record fun o before hi => hrec ⟨o, before, hi⟩]
    refine ⟨w, g, hR, fun r' _ => Nat.add_comm _ _, ?_⟩
    rw [if_neg (by simp), hname, List.nil_append]

theorem Tree.Region.shift_write (hR : t.Region old q b w g) (hi : ¬ old i) (position : Nat)
    (byte : UInt8) : ∃ w' g', (t.write i position byte).Region old q b w' g' ∧
      Shift g.due g'.due [] [] := by
  unfold Tree.write
  split
  · rename_i block hblock
    obtain ⟨o, hrec⟩ := Tree.release?_eq_some_iff.1 hblock
    obtain ⟨l, m, hd, hd'⟩ := hR.due_attach hi (.forget (.block (block.set position byte))) hrec
    refine ⟨_, _, hR.attach _ hrec, fun r' hr' => ?_, ?_⟩
    · have hne : ∀ payload : Payload, ¬ Release.forget payload = r' := fun payload he =>
        hr' payload he.symm
      rw [hd, hd']
      simp [Tree.dueWith, List.countP_append, hne]
    · rw [hd, hd']
      simp [Tree.dueWith, restored, Release.name?]
  · exact ⟨w, g, hR, .refl _⟩

/-- The changes that go on inside of the scope `b`, with `g` below it: scopes are torn
    down and left only if they are below it, and on the spine. -/
def Change.Inside (t : Tree Release) (b : Index) (g : Forest Release) : Change → Prop
  | push | reserve | commit _ _ | write _ _ _ | enter _ => True
  | pop => t.current ≠ b
  | destroy _ => False
  | leave s => (Forest.scope b g .nil).Spine s ∧ s ≠ b
  | exit call _ => (Forest.scope b g .nil).Spine call.boundary ∧ call.boundary ≠ b ∧
      t.parent? call.boundary = some call.resume

/-- The changes that give releases and bytes to records that are not old, and releases
    only to those that have none. -/
def Change.Own (t : Tree Release) (old : Index → Prop) : Change → Prop
  | commit i r => ¬ old i ∧ t.release? i = none ∧ r.name? = none
  | write i _ _ => ¬ old i
  | push | pop | destroy _ | leave _ | reserve | enter _ | exit _ _ => True

/-- What a change inside of a region makes of it. -/
structure Changed (h h' : Hold) (old : Index → Prop) (q b : Index) (g : Forest Release)
    (change : Change) (w' g' : Forest Release) : Prop where
  region : h'.tree.Region old q b w' g'
  kept : change.Own h.tree old → ∀ i, old i → h'.tree.nodes.get? i = h.tree.nodes.get? i
  shift : change.Own h.tree old → Shift g.due g'.due change.given (change.due h)

namespace Tree.Region

theorem due_mapWithin {c : Index} {f : Forest Release → Forest Release} (hf : ∀ x, (f x).due = x.due) :
    (g.mapWithin b c f).due = g.due := by
  unfold Forest.mapWithin
  split
  · exact hf g
  · exact Forest.due_mapBelow hf g

variable (hR : h.tree.Region old q b w g)
include hR

theorem changed_push {k : Option Index} {u : Tree Release} (hp : h.tree.push = (k, u)) :
    ∃ w' g', u.Region old q b w' g' ∧ (∀ i, old i → u.nodes.get? i = h.tree.nodes.get? i) ∧
      Shift g.due g'.due [] [] := by
  rcases k with _ | s
  · rw [Tree.push_none hp]
    exact ⟨w, g, hR, fun _ _ => rfl, .refl _⟩
  · obtain ⟨hu, -, hold⟩ := hR.push hp
    refine ⟨_, _, hu, hold, ?_⟩
    rw [due_mapWithin (f := .scope s .nil) fun _ => rfl]
    exact .refl _

theorem changed_destroy {s p : Index} (hs : (Forest.scope b g .nil).Spine s) (hsb : s ≠ b)
    (hp : h.tree.parent? s = some p) : ∃ w' g', ((h.tree.enter p).destroy s).2.Region old q b w' g' ∧
      (∀ i, old i → ((h.tree.enter p).destroy s).2.nodes.get? i = h.tree.nodes.get? i) ∧
        Shift g.due g'.due [] (Ledger.dueOf (h.tree.enter p) s) := by
  obtain ⟨hu, hdue, hold⟩ := hR.destroy hs hsb hp
  refine ⟨_, _, hu, hold, fun r _ => ?_, ?_⟩
  · rw [hdue, List.countP_append, List.countP_nil, Nat.add_zero]
  · rw [hdue, restored_append]

theorem commit (i : Index) (r : Release) :
    ∃ w' g', (h.tree.commit i r).2.Region old q b w' g' := by
  by_cases hrec : ∃ o before, h.tree.nodes.get? i = some (.record o before)
  · obtain ⟨o, before, hrec⟩ := hrec
    exact ⟨_, _, hR.attach r hrec⟩
  · rw [Tree.commit_of_not_record fun o before hi => hrec ⟨o, before, hi⟩]
    exact ⟨w, g, hR⟩

theorem changed_reserve : ∃ w' g',
    Changed h (Change.apply .reserve h) old q b g .reserve w' g' := by
  rcases hr : h.tree.reserve with ⟨_ | i, u⟩
  · have hu := Tree.reserve_none hr
    refine ⟨w, g, ?_, fun _ _ _ => ?_, fun _ => .refl _⟩
    · rw [Change.apply, hr, hu]
      exact hR
    · rw [Change.apply, hr, hu]
  · obtain ⟨hu, -, hold⟩ := hR.reserve hr
    refine ⟨_, _, by rw [Change.apply, hr]; exact hu, fun _ => by rw [Change.apply, hr]; exact hold,
      fun _ => ?_⟩
    rw [due_mapWithin (f := .record i none) fun _ => rfl]
    exact .refl _

theorem changed_commit (i : Index) (r : Release) : ∃ w' g',
    Changed h (Change.apply (.commit i r) h) old q b g (.commit i r) w' g' := by
  by_cases hown : ¬ old i ∧ h.tree.release? i = none ∧ r.name? = none
  · obtain ⟨w', g', hu, hshift⟩ := hR.shift_commit hown.1 hown.2.1 hown.2.2
    exact ⟨w', g', hu, fun _ => kept_commit r hown.1, fun _ => hshift⟩
  · obtain ⟨w', g', hu⟩ := hR.commit i r
    exact ⟨w', g', hu, fun ho => absurd ho hown, fun ho => absurd ho hown⟩

theorem changed_write (i : Index) (position : Nat) (byte : UInt8) : ∃ w' g',
    Changed h (Change.apply (.write i position byte) h) old q b g (.write i position byte) w' g' := by
  by_cases hi : old i
  · have hwrite : ∃ w' g', (h.tree.write i position byte).Region old q b w' g' := by
      unfold Tree.write
      split
      · exact hR.commit i _
      · exact ⟨w, g, hR⟩
    obtain ⟨w', g', hu⟩ := hwrite
    exact ⟨w', g', hu, fun ho => absurd hi ho, fun ho => absurd hi ho⟩
  · obtain ⟨w', g', hu, hshift⟩ := hR.shift_write hi position byte
    refine ⟨w', g', hu, fun _ j hj => ?_, fun _ => hshift⟩
    show (h.tree.write i position byte).nodes.get? j = _
    unfold Tree.write
    split
    · exact kept_commit _ hi j hj
    · rfl

/-- A call inside of a region that ends: its boundary is left, and torn down if the body
    has failed. -/
theorem changed_exit {call : ProtectedCall} (hs : (Forest.scope b g .nil).Spine call.boundary)
    (hsb : call.boundary ≠ b) (hp : h.tree.parent? call.boundary = some call.resume) (how : Exit Unit) :
    ∃ w' g', Changed h (Change.apply (.exit call how) h) old q b g (.exit call how) w' g' := by
  obtain ⟨p, hp', hspine⟩ := hR.spine_parent hs hsb
  rw [hp] at hp'; cases hp'
  have hdestroyed := hR.changed_destroy hs hsb hp
  rcases how with _ | _ | _
  · refine ⟨w, g, hR.moved rfl rfl ?_, fun _ _ _ => rfl, fun _ => .refl _⟩
    have hscope : h.tree.isScope call.resume = true := by
      obtain ⟨p, cs, hcs⟩ := hR.held.scope_of_mem hspine.mem_scopes
      exact Tree.isScope_iff.2 ⟨p, cs, hcs⟩
    rw [Change.apply, current_enter, if_pos hscope]
    exact hspine
  all_goals
    obtain ⟨w', g', hu, hold, hshift⟩ := hdestroyed
    exact ⟨w', g', hu, fun _ => hold, fun _ => hshift⟩

/-- Every change inside of a region leaves a region. -/
theorem change {c : Change} (hc : c.Inside h.tree b g) :
    ∃ w' g', Changed h (c.apply h) old q b g c w' g' := by
  cases c with
  | push =>
    obtain ⟨w', g', hu, hold, hshift⟩ := hR.changed_push rfl
    exact ⟨w', g', hu, fun _ => hold, fun _ => hshift⟩
  | enter detail =>
    rcases hp : h.tree.push with ⟨_ | s, u⟩
    · exact ⟨w, g, by rw [Change.apply, hp]; exact hR, fun _ _ _ => by rw [Change.apply, hp],
        fun _ => .refl _⟩
    · obtain ⟨w', g', hu, hold, hshift⟩ := hR.changed_push hp
      exact ⟨w', g', by rw [Change.apply, hp]; exact hu, fun _ => by rw [Change.apply, hp]; exact hold,
        fun _ => hshift⟩
  | reserve => exact hR.changed_reserve
  | commit i r => exact hR.changed_commit i r
  | write i position byte => exact hR.changed_write i position byte
  | pop =>
    obtain ⟨p, hp, hspine⟩ := hR.spine_parent hR.spine hc
    refine ⟨w, g, hR.moved (Tree.nodes_pop _) (Tree.top_pop _) ?_, fun _ _ _ => ?_, fun _ => .refl _⟩
    · rw [Change.apply, Tree.current_pop, hp]
      exact hspine
    · rw [Change.apply, Tree.nodes_pop]
  | destroy s => exact hc.elim
  | leave s =>
    obtain ⟨p, hp, -⟩ := hR.spine_parent hc.1 hc.2
    have hleave : h.tree.leaving s = h.tree.enter p := by rw [Tree.leaving, hp]
    obtain ⟨w', g', hu, hold, hshift⟩ := hR.changed_destroy hc.1 hc.2 hp
    rw [← hleave] at hu hold hshift
    exact ⟨w', g', hu, fun _ => hold, fun _ => hshift⟩
  | exit call how => exact hR.changed_exit hc.1 hc.2.1 hc.2.2 how

end Tree.Region

end ScopedResources
