/-
  Forests: the shape of an ownership tree, apart from the store that keeps it.

  A forest is a list of siblings, the newest first, each with what is below it.
  The links of a tree are spread over a store; a forest is the same thing as a
  datum, so that what is true of a tree is proved by induction on its forest.

  * `Forest.indices` are the nodes in the order in which a teardown removes
    them, `Forest.due` the releases in the order in which it runs them: the
    newest sibling first, what is below a scope before the scope.
  * `Forest.below?` is what is below a scope, `Forest.mapBelow` changes it,
    `Forest.prune` takes a scope out with all below it.
  * `Forest.Held` says that a store holds a forest.
-/
import Mathlib.Data.List.Nodup
import ScopedResources.Proofs.Slots
import ScopedResources.Tree.Teardown

namespace ScopedResources

/-- The scope that a node lies in: a scope's parent, a record's owner. -/
def Node.holder {ρ : Type} : Node ρ → Option Index
  | .scope parent _ => parent
  | .record owner _ => some owner

/-- A node without one of its children. -/
def Node.without {ρ : Type} (child : Index) : Node ρ → Node ρ
  | .scope parent children => .scope parent (children.erase child)
  | .record owner release => .record owner release

@[simp] theorem Node.holder_without {ρ : Type} (child : Index) (node : Node ρ) :
    (node.without child).holder = node.holder := by
  cases node <;> rfl

/-- Siblings, the newest first, each with what is below it. -/
inductive Forest (ρ : Type) where
  | nil
  | record (i : Index) (release : Option ρ) (older : Forest ρ)
  | scope (i : Index) (below older : Forest ρ)

namespace Forest

variable {ρ : Type}

/-- The siblings. -/
def roots : Forest ρ → List Index
  | nil => []
  | record i _ older | scope i _ older => i :: older.roots

/-- All nodes, in the order in which a teardown removes them. -/
def indices : Forest ρ → List Index
  | nil => []
  | record i _ older => i :: older.indices
  | scope i below older => below.indices ++ i :: older.indices

/-- All scopes. -/
def scopes : Forest ρ → List Index
  | nil => []
  | record _ _ older => older.scopes
  | scope i below older => below.scopes ++ i :: older.scopes

/-- All records, the newest first. -/
def records : Forest ρ → List Index
  | nil => []
  | record i _ older => i :: older.records
  | scope _ below older => below.records ++ older.records

/-- What a teardown releases, in order. -/
def due : Forest ρ → List (Due ρ)
  | nil => []
  | record i release older => Tree.dueWith i release older.due
  | scope _ below older => below.due ++ older.due

/-- What is below a scope. -/
def below? (s : Index) : Forest ρ → Option (Forest ρ)
  | nil => none
  | record _ _ older => older.below? s
  | scope i below older => if i = s then some below else (below.below? s).or (older.below? s)

/-- Changes what is below a scope. -/
def mapBelow (s : Index) (f : Forest ρ → Forest ρ) : Forest ρ → Forest ρ
  | nil => nil
  | record i release older => record i release (older.mapBelow s f)
  | scope i below older =>
    if i = s then scope i (f below) older
    else scope i (below.mapBelow s f) (older.mapBelow s f)

/-- Takes a scope out, with all below it. -/
def prune (s : Index) : Forest ρ → Forest ρ
  | nil => nil
  | record i release older => record i release (older.prune s)
  | scope i below older => if i = s then older else scope i (below.prune s) (older.prune s)

/-- Gives a record its release. -/
def attach (r : Index) (release : ρ) : Forest ρ → Forest ρ
  | nil => nil
  | record i old older =>
    record i (if i = r then some release else old) (older.attach r release)
  | scope i below older => scope i (below.attach r release) (older.attach r release)

/-- A store, by its answers, holds a forest below `parent`. -/
def Held (get? : Index → Option (Node ρ)) (parent : Option Index) : Forest ρ → Prop
  | nil => True
  | record i release older =>
    (∃ owner, parent = some owner ∧ get? i = some (.record owner release)) ∧
      older.Held get? parent
  | scope i below older =>
    get? i = some (.scope parent below.roots) ∧ below.Held get? (some i) ∧ older.Held get? parent

/-! ## Nodes -/

variable {f g : Forest ρ} {i s : Index}

theorem mem_indices_of_mem_scopes : ∀ {f : Forest ρ}, i ∈ f.scopes → i ∈ f.indices
  | record _ _ older, h => List.mem_cons_of_mem _ (mem_indices_of_mem_scopes (f := older) h)
  | scope _ below older, h => by
    simp only [scopes, indices, List.mem_append, List.mem_cons] at h ⊢
    rcases h with h | h | h
    · exact .inl (mem_indices_of_mem_scopes h)
    · exact .inr (.inl h)
    · exact .inr (.inr (mem_indices_of_mem_scopes h))

theorem mem_indices_of_mem_records : ∀ {f : Forest ρ}, i ∈ f.records → i ∈ f.indices
  | record _ _ older, h => by
    simp only [records, indices, List.mem_cons] at h ⊢
    exact h.imp_right mem_indices_of_mem_records
  | scope _ below older, h => by
    simp only [records, indices, List.mem_append, List.mem_cons] at h ⊢
    rcases h with h | h
    · exact .inl (mem_indices_of_mem_records h)
    · exact .inr (.inr (mem_indices_of_mem_records h))

theorem mem_indices_of_mem_roots : ∀ {f : Forest ρ}, i ∈ f.roots → i ∈ f.indices
  | record _ _ older, h => by
    simp only [roots, indices, List.mem_cons] at h ⊢
    exact h.imp_right mem_indices_of_mem_roots
  | scope _ below older, h => by
    simp only [roots, indices, List.mem_append, List.mem_cons] at h ⊢
    exact .inr (h.imp_right mem_indices_of_mem_roots)

theorem mem_indices_iff : ∀ {f : Forest ρ}, i ∈ f.indices ↔ i ∈ f.scopes ∨ i ∈ f.records
  | nil => by simp [indices, scopes, records]
  | record _ _ older => by
    simp only [indices, scopes, records, List.mem_cons, mem_indices_iff (f := older)]
    tauto
  | scope _ below older => by
    simp only [indices, scopes, records, List.mem_append, List.mem_cons,
      mem_indices_iff (f := below), mem_indices_iff (f := older)]
    tauto

/-- The parts of a forest with a scope in front have no node in common. -/
theorem nodup_scope {below older : Forest ρ} :
    (scope i below older).indices.Nodup ↔
      below.indices.Nodup ∧ older.indices.Nodup ∧ i ∉ below.indices ∧ i ∉ older.indices ∧
        ∀ j ∈ below.indices, j ∉ older.indices := by
  simp only [indices, List.nodup_append, List.nodup_cons, List.mem_cons, ne_eq]
  constructor
  · rintro ⟨hb, ⟨hi, ho⟩, hd⟩
    exact ⟨hb, ho, fun h => hd i h i (.inl rfl) rfl, hi, fun j hj h => hd j hj j (.inr h) rfl⟩
  · rintro ⟨hb, ho, hib, hio, hd⟩
    refine ⟨hb, ⟨hio, ho⟩, ?_⟩
    rintro j hj k (rfl | hk) rfl
    · exact hib hj
    · exact hd j hj hk

theorem nodup_record {release : Option ρ} {older : Forest ρ} :
    (record i release older).indices.Nodup ↔ i ∉ older.indices ∧ older.indices.Nodup := by
  simp only [indices, List.nodup_cons]

theorem roots_sublist : ∀ f : Forest ρ, f.roots.Sublist f.indices
  | nil => .slnil
  | record _ _ older => (roots_sublist older).cons_cons _
  | scope i below older =>
    ((roots_sublist older).cons_cons i).trans (List.sublist_append_right below.indices _)

theorem records_sublist : ∀ f : Forest ρ, f.records.Sublist f.indices
  | nil => .slnil
  | record _ _ older => (records_sublist older).cons_cons _
  | scope i below older =>
    (records_sublist below).append ((records_sublist older).trans (List.sublist_cons_self i _))

/-- A teardown releases in the order of the records. -/
theorem due_sublist : ∀ f : Forest ρ, (f.due.map (·.record)).Sublist f.records
  | nil => .slnil
  | record i none older => (due_sublist older).trans (List.sublist_cons_self i _)
  | record i (some r) older => (due_sublist older).cons_cons i
  | scope _ below older => by
    rw [due, records, List.map_append]
    exact (due_sublist below).append (due_sublist older)

/-! ## What is below a scope -/

theorem isSome_below?_iff : ∀ {f : Forest ρ}, (f.below? s).isSome ↔ s ∈ f.scopes
  | nil => by simp [below?, scopes]
  | record _ _ older => isSome_below?_iff (f := older)
  | scope i below older => by
    simp only [below?, scopes, List.mem_append, List.mem_cons]
    split
    · rename_i h; simp [h]
    · rename_i h
      rw [Option.isSome_or, Bool.or_eq_true, isSome_below?_iff (f := below),
        isSome_below?_iff (f := older)]
      have := Ne.symm h
      tauto

/-- The records below a scope are in the order that they have in the forest. -/
theorem records_below? : ∀ {f : Forest ρ}, f.below? s = some g → g.records.Sublist f.records
  | record i _ older, hg => (records_below? (f := older) hg).cons i
  | scope i below older, hg => by
    simp only [below?] at hg
    split at hg
    · cases hg
      exact List.sublist_append_left _ _
    · rcases hb : below.below? s with _ | g'
      · rw [hb, Option.none_or] at hg
        exact (records_below? hg).trans (List.sublist_append_right _ _)
      · rw [hb, Option.some_or] at hg
        cases hg
        exact (records_below? hb).trans (List.sublist_append_left _ _)

theorem below?_eq_none (h : s ∉ f.indices) : f.below? s = none := by
  rw [← Option.not_isSome_iff_eq_none, isSome_below?_iff]
  exact fun hs => h (mem_indices_of_mem_scopes hs)

theorem exists_below? (h : s ∈ f.scopes) : ∃ g, f.below? s = some g :=
  Option.isSome_iff_exists.1 (isSome_below?_iff.2 h)

theorem mem_scopes_of_below? (h : f.below? s = some g) : s ∈ f.scopes :=
  isSome_below?_iff.1 (by rw [h]; rfl)

theorem mem_indices_of_below? (h : f.below? s = some g) : s ∈ f.indices :=
  mem_indices_of_mem_scopes (mem_scopes_of_below? h)

/-- A scope that a forest with a scope in front knows is that one, or is in one
    of the two parts. -/
theorem below?_scope {below older : Forest ρ} (h : (scope i below older).below? s = some g) :
    (i = s ∧ g = below) ∨ (i ≠ s ∧ below.below? s = some g) ∨
      (i ≠ s ∧ below.below? s = none ∧ older.below? s = some g) := by
  simp only [below?] at h
  split at h
  · rename_i hi; cases h; exact .inl ⟨hi, rfl⟩
  · rename_i hi
    rcases hb : below.below? s with _ | g'
    · rw [hb, Option.none_or] at h; exact .inr (.inr ⟨hi, rfl, h⟩)
    · rw [hb, Option.some_or] at h; exact .inr (.inl ⟨hi, h⟩)

/-- What is below a scope that is itself below `s` is found there. -/
theorem below?_below? {q : Index} : ∀ {f : Forest ρ}, f.indices.Nodup → f.below? s = some g →
    q ∈ g.scopes → f.below? q = g.below? q
  | record i _ older, hn, hg, hq => below?_below? (f := older) (nodup_record.1 hn).2 hg hq
  | scope i below older, hn, hg, hq => by
    obtain ⟨hb, ho, hib, hio, hd⟩ := nodup_scope.1 hn
    obtain ⟨r, hr⟩ := exists_below? hq
    rcases below?_scope hg with ⟨rfl, rfl⟩ | ⟨hi, hg'⟩ | ⟨hi, hb', hg'⟩
    · have hne : i ≠ q := fun h => hib (h ▸ mem_indices_of_mem_scopes hq)
      simp [below?, hne, hr]
    · have hbq := below?_below? hb hg' hq
      rw [hr] at hbq
      have hne : i ≠ q := fun h => hib (h ▸ mem_indices_of_below? hbq)
      simp [below?, hne, hbq, hr]
    · have hoq := below?_below? ho hg' hq
      rw [hr] at hoq
      have hqo := mem_indices_of_below? hoq
      have hne : i ≠ q := fun h => hio (h ▸ hqo)
      have hbq : below.below? q = none := below?_eq_none fun h => hd q h hqo
      simp [below?, hne, hbq, hoq, hr]

/-! ## Changing what is below a scope -/

variable {h : Forest ρ → Forest ρ}

theorem mapBelow_of_notMem : ∀ {f : Forest ρ}, s ∉ f.indices → f.mapBelow s h = f
  | nil, _ => rfl
  | record _ _ older, hs => by
    simp only [indices, List.mem_cons, not_or] at hs
    rw [mapBelow, mapBelow_of_notMem hs.2]
  | scope i below older, hs => by
    simp only [indices, List.mem_append, List.mem_cons, not_or] at hs
    rw [mapBelow, if_neg (Ne.symm hs.2.1), mapBelow_of_notMem hs.1, mapBelow_of_notMem hs.2.2]

theorem roots_mapBelow : ∀ {f : Forest ρ}, (f.mapBelow s h).roots = f.roots
  | nil => rfl
  | record i _ older => by rw [mapBelow, roots, roots, roots_mapBelow]
  | scope i below older => by
    rw [mapBelow]
    split
    · rfl
    · rw [roots, roots, roots_mapBelow]

/-- A change below a scope that trades the nodes `l` for the nodes `m` does so in
    the whole forest. -/
theorem indices_mapBelow {l m : List Index} :
    ∀ {f : Forest ρ}, f.indices.Nodup → f.below? s = some g →
      (m ++ (h g).indices).Perm (l ++ g.indices) →
        (m ++ (f.mapBelow s h).indices).Perm (l ++ f.indices)
  | record i _ older, hn, hg, hp => by
    have ih := indices_mapBelow (nodup_record.1 hn).2 hg hp
    calc (m ++ i :: (older.mapBelow s h).indices).Perm (i :: (m ++ (older.mapBelow s h).indices)) :=
          List.perm_middle
      _ |>.Perm (i :: (l ++ older.indices)) := ih.cons i
      _ |>.Perm (l ++ i :: older.indices) := List.perm_middle.symm
  | scope i below older, hn, hg, hp => by
    obtain ⟨hb, ho, hib, hio, hd⟩ := nodup_scope.1 hn
    rw [mapBelow]
    rcases below?_scope hg with ⟨rfl, rfl⟩ | ⟨hi, hg'⟩ | ⟨hi, hb', hg'⟩
    · rw [if_pos rfl, indices, indices, ← List.append_assoc, ← List.append_assoc]
      exact hp.append_right _
    · have hs : s ∉ older.indices := hd s (mem_indices_of_below? hg')
      rw [if_neg hi, mapBelow_of_notMem hs, indices, indices, ← List.append_assoc,
        ← List.append_assoc]
      exact (indices_mapBelow hb hg' hp).append_right _
    · have hs : s ∉ below.indices := fun h => hd s h (mem_indices_of_below? hg')
      have ih := indices_mapBelow ho hg' hp
      rw [if_neg hi, mapBelow_of_notMem hs, indices, indices]
      calc (m ++ (below.indices ++ i :: (older.mapBelow s h).indices)).Perm
              ((below.indices ++ [i]) ++ (m ++ (older.mapBelow s h).indices)) := by
            simpa using List.perm_append_comm_assoc m (below.indices ++ [i]) _
        _ |>.Perm ((below.indices ++ [i]) ++ (l ++ older.indices)) := ih.append_left _
        _ |>.Perm (l ++ (below.indices ++ i :: older.indices)) := by
            simpa using List.perm_append_comm_assoc (below.indices ++ [i]) l older.indices

/-! ## Taking a scope out -/

theorem prune_of_notMem_scopes : ∀ {f : Forest ρ}, s ∉ f.scopes → f.prune s = f
  | nil, _ => rfl
  | record _ _ older, hs => by rw [prune, prune_of_notMem_scopes (f := older) hs]
  | scope i below older, hs => by
    simp only [scopes, List.mem_append, List.mem_cons, not_or] at hs
    rw [prune, if_neg (Ne.symm hs.2.1), prune_of_notMem_scopes hs.1, prune_of_notMem_scopes hs.2.2]

theorem prune_of_notMem (hs : s ∉ f.indices) : f.prune s = f :=
  prune_of_notMem_scopes fun h => hs (mem_indices_of_mem_scopes h)

theorem prune_comm (s t : Index) : ∀ f : Forest ρ, (f.prune s).prune t = (f.prune t).prune s
  | nil => rfl
  | record i release older => by rw [prune, prune, prune, prune, prune_comm s t older]
  | scope i below older => by
    by_cases hs : i = s
    · by_cases ht : i = t
      · rw [← hs, ← ht]
      · simp only [prune, if_pos hs, if_neg ht]
    · by_cases ht : i = t
      · simp only [prune, if_neg hs, if_pos ht]
      · simp only [prune, if_neg hs, if_neg ht, prune_comm s t below, prune_comm s t older]

/-- Taking a scope out takes out the scope and what is below it, and no more. -/
theorem indices_prune :
    ∀ {f : Forest ρ}, f.indices.Nodup → f.below? s = some g →
      f.indices.Perm (g.indices ++ s :: (f.prune s).indices)
  | record i _ older, hn, hg => by
    have ih := indices_prune (nodup_record.1 hn).2 hg
    calc (i :: older.indices).Perm (i :: (g.indices ++ s :: (older.prune s).indices)) := ih.cons i
      _ |>.Perm (g.indices ++ i :: s :: (older.prune s).indices) := List.perm_middle.symm
      _ |>.Perm (g.indices ++ s :: i :: (older.prune s).indices) :=
          (List.Perm.swap s i _).append_left _
  | scope i below older, hn, hg => by
    obtain ⟨hb, ho, hib, hio, hd⟩ := nodup_scope.1 hn
    rw [prune]
    rcases below?_scope hg with ⟨rfl, rfl⟩ | ⟨hi, hg'⟩ | ⟨hi, hb', hg'⟩
    · rw [if_pos rfl, indices]
    · have hs : s ∉ older.indices := hd s (mem_indices_of_below? hg')
      rw [if_neg hi, prune_of_notMem hs, indices, indices]
      simpa using (indices_prune hb hg').append_right (i :: older.indices)
    · have hs : s ∉ below.indices := fun h => hd s h (mem_indices_of_below? hg')
      have ih := indices_prune ho hg'
      rw [if_neg hi, prune_of_notMem hs, indices, indices]
      calc (below.indices ++ i :: older.indices).Perm
              ((below.indices ++ [i]) ++ (g.indices ++ s :: (older.prune s).indices)) := by
            simpa using (ih.cons i).append_left below.indices
        _ |>.Perm ((g.indices ++ [s]) ++ ((below.indices ++ [i]) ++ (older.prune s).indices)) := by
            simpa using List.perm_append_comm_assoc (below.indices ++ [i]) (g.indices ++ [s])
              (older.prune s).indices
        _ |>.Perm (g.indices ++ s :: (below.indices ++ i :: (older.prune s).indices)) := by simp

/-- What a teardown of all releases is what is due below a scope, and what is due when the
    scope has been taken out. -/
theorem due_prune : ∀ {f : Forest ρ}, f.indices.Nodup → f.below? s = some g →
    f.due.Perm (g.due ++ (f.prune s).due)
  | record i none older, hn, hg => due_prune (f := older) (nodup_record.1 hn).2 hg
  | record i (some r) older, hn, hg => by
    rw [prune, due, due, Tree.dueWith, Tree.dueWith]
    exact ((due_prune (f := older) (nodup_record.1 hn).2 hg).cons ⟨i, r⟩).trans
      List.perm_middle.symm
  | scope i below older, hn, hg => by
    obtain ⟨hb, ho, hib, hio, hd⟩ := nodup_scope.1 hn
    rw [prune]
    rcases below?_scope hg with ⟨rfl, rfl⟩ | ⟨hi, hg'⟩ | ⟨hi, hb', hg'⟩
    · rw [if_pos rfl, due]
    · rw [if_neg hi, prune_of_notMem (hd s (mem_indices_of_below? hg')), due, due,
        ← List.append_assoc]
      exact (due_prune hb hg').append_right _
    · have hs : s ∉ below.indices := fun h => hd s h (mem_indices_of_below? hg')
      rw [if_neg hi, prune_of_notMem hs, due, due]
      exact ((due_prune ho hg').append_left _).trans (List.perm_append_comm_assoc _ _ _)

/-- The nodes below a scope, the scope, and all others are apart. -/
theorem nodup_of_below? (hn : f.indices.Nodup) (hg : f.below? s = some g) :
    g.indices.Nodup ∧ s ∉ g.indices ∧ (f.prune s).indices.Nodup ∧ s ∉ (f.prune s).indices ∧
      ∀ j ∈ g.indices, j ∉ (f.prune s).indices := by
  have h := (indices_prune hn hg).nodup_iff.1 hn
  simp only [List.nodup_append, List.nodup_cons, List.mem_cons] at h
  obtain ⟨hng, ⟨hsp, hnp⟩, hd⟩ := h
  exact ⟨hng, fun hs => hd s hs s (.inl rfl) rfl, hnp, hsp, fun j hj hp => hd j hj j (.inr hp) rfl⟩

theorem mem_prune_iff (hn : f.indices.Nodup) (hg : f.below? s = some g) :
    i ∈ (f.prune s).indices ↔ i ∈ f.indices ∧ i ∉ g.indices ∧ i ≠ s := by
  obtain ⟨-, -, -, hsp, hd⟩ := nodup_of_below? hn hg
  rw [(indices_prune hn hg).mem_iff, List.mem_append, List.mem_cons]
  constructor
  · intro hi
    exact ⟨.inr (.inr hi), fun h => hd i h hi, fun h => hsp (h ▸ hi)⟩
  · rintro ⟨h | h | h, hig, his⟩
    · exact absurd h hig
    · exact absurd h his
    · exact h

theorem subset_of_below? (hn : f.indices.Nodup) (hg : f.below? s = some g) :
    g.indices ⊆ f.indices :=
  fun _ hj => (indices_prune hn hg).symm.subset (List.mem_append_left _ hj)

/-- The scopes around one that is below a scope in front: that scope, and those
    around it there. -/
theorem around_below {i n : Index} {below older : Forest ρ}
    (hn : (scope i below older).indices.Nodup) (hm : n ∈ below.scopes) :
    (∃ g, (scope i below older).below? s = some g ∧ n ∈ g.scopes) ↔
      (∃ g, below.below? s = some g ∧ n ∈ g.scopes) ∨ s = i := by
  obtain ⟨-, ho, hib, -, hd⟩ := nodup_scope.1 hn
  constructor
  · rintro ⟨g, hg, hng⟩
    rcases below?_scope hg with ⟨rfl, rfl⟩ | ⟨-, hg'⟩ | ⟨-, -, hg'⟩
    · exact .inr rfl
    · exact .inl ⟨g, hg', hng⟩
    · exact absurd (subset_of_below? ho hg' (mem_indices_of_mem_scopes hng))
        (hd n (mem_indices_of_mem_scopes hm))
  · rintro (⟨g, hg, hng⟩ | rfl)
    · have his : i ≠ s := fun h => hib (h ▸ mem_indices_of_below? hg)
      exact ⟨g, by simp [below?, his, hg], hng⟩
    · exact ⟨below, by simp [below?], hm⟩

/-- No scope of a forest is around one in front. -/
theorem not_around_front {i : Index} {below older : Forest ρ}
    (hn : (scope i below older).indices.Nodup) :
    ¬ ∃ g, (scope i below older).below? s = some g ∧ i ∈ g.scopes := by
  obtain ⟨hb, ho, hib, hio, -⟩ := nodup_scope.1 hn
  rintro ⟨g, hg, hig⟩
  have hig := mem_indices_of_mem_scopes hig
  rcases below?_scope hg with ⟨rfl, rfl⟩ | ⟨-, hg'⟩ | ⟨-, -, hg'⟩
  · exact hib hig
  · exact hib (subset_of_below? hb hg' hig)
  · exact hio (subset_of_below? ho hg' hig)

/-- A scope in front is not around those behind it. -/
theorem around_older {i n : Index} {below older : Forest ρ}
    (hn : (scope i below older).indices.Nodup) (hm : n ∈ older.scopes) :
    (∃ g, (scope i below older).below? s = some g ∧ n ∈ g.scopes) ↔
      ∃ g, older.below? s = some g ∧ n ∈ g.scopes := by
  obtain ⟨hb, -, -, hio, hd⟩ := nodup_scope.1 hn
  have hmi := mem_indices_of_mem_scopes hm
  constructor
  · rintro ⟨g, hg, hng⟩
    have hng' := mem_indices_of_mem_scopes hng
    rcases below?_scope hg with ⟨-, rfl⟩ | ⟨-, hg'⟩ | ⟨-, -, hg'⟩
    · exact absurd hmi (hd n hng')
    · exact absurd hmi (hd n (subset_of_below? hb hg' hng'))
    · exact ⟨g, hg', hng⟩
  · rintro ⟨g, hg, hng⟩
    have hsi := mem_indices_of_below? hg
    have his : i ≠ s := fun h => hio (h ▸ hsi)
    have hsb : below.below? s = none := below?_eq_none fun h => hd s h hsi
    exact ⟨g, by simp [below?, his, hsb, hg], hng⟩

theorem filter_notMem_eq_self {l torn : List Index} (h : ∀ j ∈ l, j ∉ torn) :
    l.filter (· ∉ torn) = l :=
  List.filter_eq_self.2 fun j hj => by simpa using h j hj

theorem filter_notMem_eq_nil {l torn : List Index} (h : l ⊆ torn) : l.filter (· ∉ torn) = [] :=
  List.filter_eq_nil_iff.2 fun j hj => by simpa using h hj

theorem filter_mem_eq_of_sublist {l m : List Index} (h : l.Sublist m) (hn : m.Nodup) :
    m.filter (· ∈ l) = l := by
  induction h with
  | slnil => rfl
  | @cons l m i h ih =>
    obtain ⟨hi, hm⟩ := List.nodup_cons.1 hn
    rw [List.filter_cons_of_neg (by simpa using fun hl => hi (h.subset hl)), ih hm]
  | @cons_cons l m i h ih =>
    obtain ⟨hi, hm⟩ := List.nodup_cons.1 hn
    have hrest : m.filter (· ∈ i :: l) = m.filter (· ∈ l) := List.filter_congr fun j hj => by
      have hji : j ≠ i := fun he => hi (he ▸ hj)
      simp [hji]
    rw [List.filter_cons_of_pos (by simp), hrest, ih hm]

/-- A part of a forest without what was torn down loses nothing. -/
theorem scopes_records_filter {l : List Index} (h : ∀ j ∈ f.indices, j ∉ l) :
    f.scopes.filter (· ∉ l) = f.scopes ∧ f.records.filter (· ∉ l) = f.records :=
  ⟨filter_notMem_eq_self fun j hj => h j (mem_indices_of_mem_scopes hj),
    filter_notMem_eq_self fun j hj => h j (mem_indices_of_mem_records hj)⟩

/-- The nodes that are left are in the order they were in. -/
theorem scopes_records_prune : ∀ {f : Forest ρ}, f.indices.Nodup → f.below? s = some g →
    (f.prune s).scopes = f.scopes.filter (· ∉ g.indices ++ [s]) ∧
      (f.prune s).records = f.records.filter (· ∉ g.indices ++ [s])
  | record i _ older, hn, hg => by
    obtain ⟨hio, hno⟩ := nodup_record.1 hn
    obtain ⟨hs, hr⟩ := scopes_records_prune hno hg
    have hni : i ∉ g.indices ++ [s] := by
      simp only [List.mem_append, List.mem_singleton, not_or]
      exact ⟨fun h => hio (subset_of_below? hno hg h), fun h => hio (h ▸ mem_indices_of_below? hg)⟩
    rw [prune, scopes, scopes, records, records, hs, hr, List.filter_cons_of_pos (by simpa using hni)]
    exact ⟨rfl, rfl⟩
  | scope i below older, hn, hg => by
    obtain ⟨hb, ho, hib, hio, hd⟩ := nodup_scope.1 hn
    rw [prune, scopes, records, List.filter_append, List.filter_append, List.filter_cons]
    rcases below?_scope hg with ⟨rfl, rfl⟩ | ⟨hi, hg'⟩ | ⟨hi, hb', hg'⟩
    · obtain ⟨hs, hr⟩ := scopes_records_filter (f := older) (l := g.indices ++ [i]) fun j hj => by
        simp only [List.mem_append, List.mem_singleton, not_or]
        exact ⟨fun h => hd j h hj, fun h => hio (h ▸ hj)⟩
      have hscopes : g.scopes ⊆ g.indices ++ [i] := fun j hj =>
        List.mem_append_left _ (mem_indices_of_mem_scopes hj)
      have hrecords : g.records ⊆ g.indices ++ [i] := fun j hj =>
        List.mem_append_left _ (mem_indices_of_mem_records hj)
      rw [if_pos rfl, hs, hr, filter_notMem_eq_nil hscopes, filter_notMem_eq_nil hrecords]
      simp
    · have hsb := mem_indices_of_below? hg'
      have hsub := subset_of_below? hb hg'
      obtain ⟨hs, hr⟩ := scopes_records_filter (f := older) (l := g.indices ++ [s]) fun j hj => by
        simp only [List.mem_append, List.mem_singleton, not_or]
        exact ⟨fun h => hd j (hsub h) hj, fun h => hd j (h ▸ hsb) hj⟩
      obtain ⟨hs', hr'⟩ := scopes_records_prune hb hg'
      have hni : i ∉ g.indices ++ [s] := by
        simp only [List.mem_append, List.mem_singleton, not_or]
        exact ⟨fun h => hib (hsub h), hi⟩
      rw [if_neg hi, prune_of_notMem (hd s hsb), scopes, records, hs, hr, hs', hr',
        if_pos (by simpa using hni)]
      exact ⟨rfl, rfl⟩
    · have hso := mem_indices_of_below? hg'
      have hsub := subset_of_below? ho hg'
      obtain ⟨hs, hr⟩ := scopes_records_filter (f := below) (l := g.indices ++ [s]) fun j hj => by
        simp only [List.mem_append, List.mem_singleton, not_or]
        exact ⟨fun h => hd j hj (hsub h), fun h => hd j hj (h ▸ hso)⟩
      obtain ⟨hs', hr'⟩ := scopes_records_prune ho hg'
      have hni : i ∉ g.indices ++ [s] := by
        simp only [List.mem_append, List.mem_singleton, not_or]
        exact ⟨fun h => hio (hsub h), hi⟩
      rw [if_neg hi, prune_of_notMem fun h => hd s h hso, scopes, records, hs, hr, hs', hr',
        if_pos (by simpa using hni)]
      exact ⟨rfl, rfl⟩

theorem mem_scopes_prune_iff (hn : f.indices.Nodup) (hg : f.below? s = some g) :
    i ∈ (f.prune s).scopes ↔ i ∈ f.scopes ∧ i ∉ g.indices ∧ i ≠ s := by
  simp [(scopes_records_prune hn hg).1]

theorem roots_prune : ∀ {f : Forest ρ}, f.indices.Nodup → s ∉ f.records →
    (f.prune s).roots = f.roots.erase s
  | nil, _, _ => rfl
  | record i _ older, hn, hs => by
    simp only [records, List.mem_cons, not_or] at hs
    rw [prune, roots, roots, roots_prune (nodup_record.1 hn).2 hs.2,
      List.erase_cons_tail (by simpa using Ne.symm hs.1)]
  | scope i below older, hn, hs => by
    obtain ⟨-, ho, -, hio, -⟩ := nodup_scope.1 hn
    simp only [records, List.mem_append, not_or] at hs
    rw [prune]
    split
    · rename_i hi; subst hi
      rw [roots, List.erase_cons_head]
    · rename_i hi
      rw [roots, roots, roots_prune ho hs.2, List.erase_cons_tail (by simpa using hi)]

/-! ## Holding a forest -/

variable {get? get?' : Index → Option (Node ρ)} {p : Option Index}

theorem Held.congr : ∀ {f : Forest ρ} {p : Option Index}, f.Held get? p →
    (∀ i ∈ f.indices, get?' i = get? i) → f.Held get?' p
  | nil, _, _, _ => trivial
  | record i release older, p, ⟨⟨o, hp, hi⟩, ho⟩, h => by
    simp only [indices, List.mem_cons, forall_eq_or_imp] at h
    exact ⟨⟨o, hp, h.1.trans hi⟩, ho.congr h.2⟩
  | scope i below older, p, ⟨hi, hb, ho⟩, h => by
    simp only [indices, List.mem_append, List.mem_cons] at h
    exact ⟨(h i (.inr (.inl rfl))).trans hi, hb.congr fun j hj => h j (.inl hj),
      ho.congr fun j hj => h j (.inr (.inr hj))⟩

/-- Two stores that hold a forest have the same nodes there. -/
theorem Held.get?_eq : ∀ {f : Forest ρ} {p : Option Index}, f.Held get? p → f.Held get?' p →
    i ∈ f.indices → get? i = get?' i
  | record j r older, p, ⟨⟨o, hp, hj⟩, ho⟩, ⟨⟨o', hp', hj'⟩, ho'⟩, hi => by
    rcases List.mem_cons.1 hi with rfl | hi
    · rw [hp] at hp'; cases hp'
      rw [hj, hj']
    · exact ho.get?_eq ho' hi
  | scope j below older, p, ⟨hj, hb, ho⟩, ⟨hj', hb', ho'⟩, hi => by
    simp only [indices, List.mem_append, List.mem_cons] at hi
    rcases hi with hi | rfl | hi
    · exact hb.get?_eq hb' hi
    · rw [hj, hj']
    · exact ho.get?_eq ho' hi

theorem Held.scope_of_mem : ∀ {f : Forest ρ} {p : Option Index}, f.Held get? p → i ∈ f.scopes →
    ∃ parent children, get? i = some (.scope parent children)
  | record _ _ _, _, ⟨_, ho⟩, hi => ho.scope_of_mem hi
  | scope j below older, _, ⟨hj, hb, ho⟩, hi => by
    simp only [scopes, List.mem_append, List.mem_cons] at hi
    rcases hi with hi | rfl | hi
    · exact hb.scope_of_mem hi
    · exact ⟨_, _, hj⟩
    · exact ho.scope_of_mem hi

theorem Held.record_of_mem : ∀ {f : Forest ρ} {p : Option Index}, f.Held get? p → i ∈ f.records →
    ∃ owner release, get? i = some (.record owner release)
  | record j r older, _, ⟨⟨o, _, hj⟩, ho⟩, hi => by
    rcases List.mem_cons.1 hi with rfl | hi
    · exact ⟨o, r, hj⟩
    · exact ho.record_of_mem hi
  | scope j below older, _, ⟨_, hb, ho⟩, hi => by
    simp only [records, List.mem_append] at hi
    rcases hi with hi | hi
    · exact hb.record_of_mem hi
    · exact ho.record_of_mem hi

theorem Held.isSome_of_mem (hf : f.Held get? p) (hi : i ∈ f.indices) : (get? i).isSome := by
  rcases mem_indices_iff.1 hi with h | h
  · obtain ⟨q, cs, hs⟩ := hf.scope_of_mem h; rw [hs]; rfl
  · obtain ⟨o, r, hr⟩ := hf.record_of_mem h; rw [hr]; rfl

/-- A node of a forest is one of its scopes iff the store says so. -/
theorem Held.mem_scopes_iff (hf : f.Held get? p) (hi : i ∈ f.indices) :
    i ∈ f.scopes ↔ ∃ parent children, get? i = some (.scope parent children) := by
  refine ⟨hf.scope_of_mem, fun ⟨q, cs, hs⟩ => ?_⟩
  rcases mem_indices_iff.1 hi with h | h
  · exact h
  · obtain ⟨o, r, hr⟩ := hf.record_of_mem h
    rw [hs] at hr; cases hr

theorem Held.mem_records_iff (hf : f.Held get? p) (hi : i ∈ f.indices) :
    i ∈ f.records ↔ ∃ owner release, get? i = some (.record owner release) := by
  refine ⟨hf.record_of_mem, fun ⟨o, r, hr⟩ => ?_⟩
  rcases mem_indices_iff.1 hi with h | h
  · obtain ⟨q, cs, hs⟩ := hf.scope_of_mem h
    rw [hs] at hr; cases hr
  · exact h

theorem Held.notMem_records (hf : f.Held get? p) (hi : i ∈ f.scopes) : i ∉ f.records := by
  intro hr
  obtain ⟨q, cs, hs⟩ := hf.scope_of_mem hi
  obtain ⟨o, r, hr⟩ := hf.record_of_mem hr
  rw [hs] at hr; cases hr

/-- A teardown goes through the records, and releases what each of them owns. -/
theorem Held.due_eq : ∀ {f : Forest ρ} {p : Option Index}, f.Held get? p →
    f.due = f.records.filterMap fun i =>
      match get? i with
      | some (.record _ (some r)) => some ⟨i, r⟩
      | _ => none
  | nil, _, _ => rfl
  | record i r older, p, ⟨⟨o, _, hi⟩, ho⟩ => by
    rw [due, records, List.filterMap_cons, hi, ho.due_eq]
    cases r <;> rfl
  | scope j below older, p, ⟨_, hb, ho⟩ => by
    rw [due, records, List.filterMap_append, hb.due_eq, ho.due_eq]

/-- What a teardown releases are the releases of the committed records. -/
theorem Held.mem_due_iff {d : Due ρ} (hf : f.Held get? p) :
    d ∈ f.due ↔ d.record ∈ f.records ∧ ∃ o, get? d.record = some (.record o (some d.release)) := by
  rw [hf.due_eq, List.mem_filterMap]
  constructor
  · rintro ⟨i, hi, h⟩
    split at h
    · rename_i o r hr; cases h; exact ⟨hi, o, hr⟩
    · cases h
  · rintro ⟨hi, o, hr⟩
    exact ⟨d.record, hi, by rw [hr]⟩

/-- What is below a scope is held below that scope, and its siblings are the
    scope's children. -/
theorem Held.below? : ∀ {f : Forest ρ} {p : Option Index}, f.Held get? p → f.below? s = some g →
    (∃ parent, get? s = some (.scope parent g.roots)) ∧ g.Held get? (some s)
  | record _ _ _, _, ⟨_, ho⟩, hg => ho.below? hg
  | scope i below older, p, ⟨hi, hb, ho⟩, hg => by
    rcases below?_scope hg with ⟨rfl, rfl⟩ | ⟨-, hg'⟩ | ⟨-, -, hg'⟩
    · exact ⟨⟨p, hi⟩, hb⟩
    · exact hb.below? hg'
    · exact ho.below? hg'

theorem Held.holder_of_mem_roots : ∀ {f : Forest ρ} {p : Option Index}, f.Held get? p →
    i ∈ f.roots → ∃ node, get? i = some node ∧ node.holder = p
  | record j r older, p, ⟨⟨o, hp, hj⟩, ho⟩, hi => by
    rcases List.mem_cons.1 hi with rfl | hi
    · exact ⟨_, hj, hp.symm⟩
    · exact ho.holder_of_mem_roots hi
  | scope j below older, p, ⟨hj, _, ho⟩, hi => by
    rcases List.mem_cons.1 hi with rfl | hi
    · exact ⟨_, hj, rfl⟩
    · exact ho.holder_of_mem_roots hi

/-- A node of a forest is one of its siblings, or a child of one of its scopes,
    and the store knows which. -/
theorem Held.holder_of_mem : ∀ {f : Forest ρ} {p : Option Index}, f.Held get? p →
    f.indices.Nodup → i ∈ f.indices → ∃ node, get? i = some node ∧
      (node.holder = p ∧ i ∈ f.roots ∨
        ∃ q g, node.holder = some q ∧ f.below? q = some g ∧ i ∈ g.roots)
  | record j r older, p, hf@⟨_, ho⟩, hn, hi => by
    rcases List.mem_cons.1 hi with rfl | hi
    · obtain ⟨node, h₁, h₂⟩ := hf.holder_of_mem_roots (List.mem_cons_self ..)
      exact ⟨node, h₁, .inl ⟨h₂, List.mem_cons_self ..⟩⟩
    · obtain ⟨node, h₁, ⟨h₂, h₃⟩ | ⟨q, g, h₂, h₃, h₄⟩⟩ :=
        ho.holder_of_mem (nodup_record.1 hn).2 hi
      · exact ⟨node, h₁, .inl ⟨h₂, List.mem_cons_of_mem _ h₃⟩⟩
      · exact ⟨node, h₁, .inr ⟨q, g, h₂, h₃, h₄⟩⟩
  | scope j below older, p, ⟨hj, hb, ho⟩, hn, hi => by
    obtain ⟨hnb, hno, hjb, hjo, hd⟩ := nodup_scope.1 hn
    simp only [indices, List.mem_append, List.mem_cons] at hi
    rcases hi with hi | rfl | hi
    · obtain ⟨node, h₁, ⟨h₂, h₃⟩ | ⟨q, g, h₂, h₃, h₄⟩⟩ := hb.holder_of_mem hnb hi
      · exact ⟨node, h₁, .inr ⟨j, below, h₂, by simp [Forest.below?], h₃⟩⟩
      · have hjq : j ≠ q := fun h => hjb (h ▸ mem_indices_of_below? h₃)
        exact ⟨node, h₁, .inr ⟨q, g, h₂, by simp [Forest.below?, hjq, h₃], h₄⟩⟩
    · exact ⟨_, hj, .inl ⟨rfl, List.mem_cons_self ..⟩⟩
    · obtain ⟨node, h₁, ⟨h₂, h₃⟩ | ⟨q, g, h₂, h₃, h₄⟩⟩ := ho.holder_of_mem hno hi
      · exact ⟨node, h₁, .inl ⟨h₂, List.mem_cons_of_mem _ h₃⟩⟩
      · have hq := mem_indices_of_below? h₃
        have hjq : j ≠ q := fun h => hjo (h ▸ hq)
        have hqb : below.below? q = none := below?_eq_none fun h => hd q h hq
        exact ⟨node, h₁, .inr ⟨q, g, h₂, by simp [Forest.below?, hjq, hqb, h₃], h₄⟩⟩

/-- A forest is still held after a change below one scope. -/
theorem Held.mapBelow : ∀ {f : Forest ρ} {p : Option Index}, f.Held get? p → f.indices.Nodup →
    f.below? s = some g →
    (∀ parent, get? s = some (.scope parent g.roots) →
      get?' s = some (.scope parent (h g).roots)) →
    (∀ i ∈ f.indices, i ≠ s → i ∉ g.indices → get?' i = get? i) →
    (h g).Held get?' (some s) → (f.mapBelow s h).Held get?' p
  | record i r older, p, ⟨⟨o, hp, hi⟩, ho⟩, hn, hg, hs, hother, hh => by
    obtain ⟨hio, hno⟩ := nodup_record.1 hn
    have hsub := subset_of_below? hno hg
    refine ⟨⟨o, hp, ?_⟩, ho.mapBelow hno hg hs (fun j hj => hother j (List.mem_cons_of_mem _ hj)) hh⟩
    rw [hother i (List.mem_cons_self ..) (fun h => hio (h ▸ mem_indices_of_below? hg))
      fun h => hio (hsub h), hi]
  | scope i below older, p, ⟨hi, hb, ho⟩, hn, hg, hs, hother, hh => by
    obtain ⟨hnb, hno, hib, hio, hd⟩ := nodup_scope.1 hn
    simp only [indices, List.mem_append, List.mem_cons] at hother
    rw [Forest.mapBelow]
    rcases below?_scope hg with ⟨rfl, rfl⟩ | ⟨hne, hg'⟩ | ⟨hne, -, hg'⟩
    · rw [if_pos rfl]
      refine ⟨hs p hi, hh, ho.congr fun j hj => hother j (.inr (.inr hj)) ?_ ?_⟩
      · rintro rfl; exact hio hj
      · exact fun hj' => hd j hj' hj
    · have hsb := mem_indices_of_below? hg'
      have hsub := subset_of_below? hnb hg'
      rw [if_neg hne, mapBelow_of_notMem (hd s hsb)]
      refine ⟨?_, hb.mapBelow hnb hg' hs (fun j hj => hother j (.inl hj)) hh, ho.congr fun j hj => ?_⟩
      · rw [roots_mapBelow, hother i (.inr (.inl rfl)) hne fun h => hib (hsub h), hi]
      · exact hother j (.inr (.inr hj)) (fun h => hd j (h ▸ hsb) hj) fun h => hd j (hsub h) hj
    · have hso := mem_indices_of_below? hg'
      have hsub := subset_of_below? hno hg'
      have hsb : s ∉ below.indices := fun h => hd s h hso
      rw [if_neg hne, mapBelow_of_notMem hsb]
      refine ⟨?_, hb.congr fun j hj => ?_,
        ho.mapBelow hno hg' hs (fun j hj => hother j (.inr (.inr hj))) hh⟩
      · rw [hother i (.inr (.inl rfl)) hne fun h => hio (hsub h), hi]
      · exact hother j (.inl hj) (fun h => hsb (h ▸ hj)) fun h => hd j hj (hsub h)

/-- A forest without one of its scopes is held by a store in which what is left
    has lost that child. -/
theorem Held.prune : ∀ {f : Forest ρ} {p : Option Index}, f.Held get? p → f.indices.Nodup →
    s ∉ f.records → (∀ i ∈ (f.prune s).indices, get?' i = (get? i).map (Node.without s)) →
    (f.prune s).Held get?' p
  | nil, _, _, _, _, _ => trivial
  | record i r older, p, ⟨⟨o, hp, hi⟩, ho⟩, hn, hs, h => by
    simp only [Forest.prune, indices, List.mem_cons, forall_eq_or_imp] at h
    simp only [records, List.mem_cons, not_or] at hs
    exact ⟨⟨o, hp, by rw [h.1, hi]; rfl⟩, ho.prune (nodup_record.1 hn).2 hs.2 h.2⟩
  | scope i below older, p, ⟨hi, hb, ho⟩, hn, hs, h => by
    obtain ⟨hnb, hno, hib, hio, hd⟩ := nodup_scope.1 hn
    simp only [records, List.mem_append, not_or] at hs
    rw [Forest.prune] at h ⊢
    split
    · rename_i hi'
      have hprune : older.prune s = older := prune_of_notMem (hi' ▸ hio)
      rw [if_pos hi', ← hprune] at h
      rw [← hprune]
      exact ho.prune hno hs.2 h
    · rename_i hi'
      rw [if_neg hi'] at h
      simp only [indices, List.mem_append, List.mem_cons] at h
      refine ⟨?_, hb.prune hnb hs.1 fun j hj => h j (.inl hj),
        ho.prune hno hs.2 fun j hj => h j (.inr (.inr hj))⟩
      rw [h i (.inr (.inl rfl)), hi, roots_prune hnb hs.1]
      rfl

theorem indices_attach {r : Index} {release : ρ} : ∀ {f : Forest ρ},
    (f.attach r release).indices = f.indices
  | nil => rfl
  | record i _ older => by rw [attach, indices, indices, indices_attach]
  | scope i below older => by rw [attach, indices, indices, indices_attach, indices_attach]

theorem scopes_attach {r : Index} {release : ρ} : ∀ {f : Forest ρ},
    (f.attach r release).scopes = f.scopes
  | nil => rfl
  | record i _ older => by rw [attach, scopes, scopes, scopes_attach]
  | scope i below older => by rw [attach, scopes, scopes, scopes_attach, scopes_attach]

theorem records_attach {r : Index} {release : ρ} : ∀ {f : Forest ρ},
    (f.attach r release).records = f.records
  | nil => rfl
  | record i _ older => by rw [attach, records, records, records_attach]
  | scope i below older => by rw [attach, records, records, records_attach, records_attach]

theorem roots_attach {r : Index} {release : ρ} : ∀ {f : Forest ρ},
    (f.attach r release).roots = f.roots
  | nil => rfl
  | record i _ older => by rw [attach, roots, roots, roots_attach]
  | scope i below older => by rw [attach, roots, roots, roots_attach]

/-- A forest is still held after one of its records got its release. -/
theorem Held.attach {r o : Index} {old : Option ρ} {release : ρ}
    (hr : get? r = some (.record o old)) (hr' : get?' r = some (.record o (some release)))
    (hother : ∀ i, i ≠ r → get?' i = get? i) :
    ∀ {f : Forest ρ} {p : Option Index}, f.Held get? p → (f.attach r release).Held get?' p
  | nil, _, _ => trivial
  | record i rel older, p, ⟨⟨o', hp, hi⟩, ho⟩ => by
    refine ⟨⟨o', hp, ?_⟩, Held.attach hr hr' hother ho⟩
    by_cases hir : i = r
    · subst hir
      rw [hr] at hi; cases hi
      rw [if_pos rfl, hr']
    · rw [if_neg hir, hother i hir, hi]
  | scope i below older, p, ⟨hi, hb, ho⟩ => by
    have hir : i ≠ r := fun h => by rw [h, hr] at hi; cases hi
    refine ⟨?_, Held.attach hr hr' hother hb, Held.attach hr hr' hother ho⟩
    rw [roots_attach, hother i hir, hi]

end Forest

end ScopedResources
