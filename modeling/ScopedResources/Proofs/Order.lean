/-
  Releases run in the reverse of the order in which their records were reserved.

  A tree keeps no order but that of the children of each scope.  As long as
  scopes are only pushed, popped and destroyed, that is enough: the current
  scope lies on the path of newest children, so a new record is the newest of
  all, and the depth-first order of a forest is that of the reservations,
  whatever is taken out of it.

  * `Forest.Spine` is the path of newest children; `Spine.push`, `Spine.prune` and
    `Spine.of_below` say that the current scope stays on it.
  * `Tree.InOrder` is the invariant of a tree, with one lemma for each operation.
  * `Tree.InOrder.dueOf_eq`: what a teardown makes due, in which order.
  * `reverse_of_reservation`: the order in which the releases of a run are run.
-/
import ScopedResources.Proofs.Persistence
import ScopedResources.Proofs.Waiting

namespace ScopedResources

namespace Forest

variable {ρ : Type} {f g : Forest ρ} {c i q s : Index}

/-- Whether a scope lies on the path that goes from a scope to its newest child, as
    long as this is a scope. -/
def Spine (c : Index) : Forest ρ → Prop
  | scope i below _ => i = c ∨ below.Spine c
  | nil | record _ _ _ => False

theorem Spine.mem_scopes : ∀ {f : Forest ρ}, f.Spine c → c ∈ f.scopes
  | scope i below older, h => by
    simp only [scopes, List.mem_append, List.mem_cons]
    rcases h with rfl | h
    · exact .inr (.inl rfl)
    · exact .inl h.mem_scopes

theorem Spine.mem_indices (h : f.Spine c) : c ∈ f.indices :=
  mem_indices_of_mem_scopes h.mem_scopes

/-- A change below a scope on the spine leaves it there. -/
theorem Spine.mapBelow {h : Forest ρ → Forest ρ} : ∀ {f : Forest ρ}, f.Spine c →
    (f.mapBelow c h).Spine c
  | scope i below older, hf => by
    rw [Forest.mapBelow]
    split
    · rename_i hi; exact .inl hi
    · rename_i hi; exact .inr (hf.resolve_left hi).mapBelow

/-- A new scope below a scope on the spine is on the spine. -/
theorem Spine.push : ∀ {f : Forest ρ}, f.Spine c → (f.mapBelow c (scope i nil)).Spine i
  | scope j below older, hf => by
    rw [Forest.mapBelow]
    split
    · exact .inr (.inl rfl)
    · rename_i hj; exact .inr (hf.resolve_left hj).push

/-- A new scope brings no records. -/
theorem Spine.records_push : ∀ {f : Forest ρ}, f.Spine c → f.indices.Nodup →
    (f.mapBelow c (scope i nil)).records = f.records
  | scope j below older, hf, hn => by
    obtain ⟨hnb, -, -, -, hd⟩ := nodup_scope.1 hn
    rw [Forest.mapBelow]
    split
    · rfl
    · rename_i hj
      have hb := hf.resolve_left hj
      rw [records, records, hb.records_push hnb, mapBelow_of_notMem (hd c hb.mem_indices)]

/-- A new record below a scope on the spine comes before all others. -/
theorem Spine.records_reserve {r : Option ρ} : ∀ {f : Forest ρ}, f.Spine c → f.indices.Nodup →
    (f.mapBelow c (record i r)).records = i :: f.records
  | scope j below older, hf, hn => by
    obtain ⟨hnb, -, -, -, hd⟩ := nodup_scope.1 hn
    rw [Forest.mapBelow]
    split
    · rfl
    · rename_i hj
      have hb := hf.resolve_left hj
      rw [records, records, hb.records_reserve hnb, mapBelow_of_notMem (hd c hb.mem_indices)]
      rfl

/-- The scopes above a scope on the spine are on the spine. -/
theorem Spine.of_below : ∀ {f : Forest ρ}, f.Spine c → f.indices.Nodup → f.below? q = some g →
    c ∈ g.indices → f.Spine q
  | scope i below older, hf, hn, hg, hc => by
    obtain ⟨hnb, hno, hib, hio, hd⟩ := nodup_scope.1 hn
    rcases below?_scope hg with ⟨rfl, rfl⟩ | ⟨hi, hg'⟩ | ⟨hi, -, hg'⟩
    · exact .inl rfl
    · have hcb := subset_of_below? hnb hg' hc
      have hb := hf.resolve_left fun h => hib (h ▸ hcb)
      exact .inr (hb.of_below hnb hg' hc)
    · have hco := subset_of_below? hno hg' hc
      rcases hf with rfl | hb
      · exact absurd hco hio
      · exact absurd hco (hd c hb.mem_indices)

/-- The spine goes on below each of its scopes. -/
theorem Spine.trans : ∀ {f : Forest ρ}, f.Spine q → f.indices.Nodup → f.below? q = some g →
    g.Spine c → f.Spine c
  | scope i below older, hf, hn, hg, hc => by
    obtain ⟨hnb, -, hib, -, hd⟩ := nodup_scope.1 hn
    rcases below?_scope hg with ⟨rfl, rfl⟩ | ⟨hi, hg'⟩ | ⟨hi, -, hg'⟩
    · exact .inr hc
    · exact .inr ((hf.resolve_left hi).trans hnb hg' hc)
    · have hq := (hf.resolve_left hi).mem_indices
      exact absurd (mem_indices_of_below? hg') (hd q hq)

/-- What is taken out beside a scope on the spine leaves it there. -/
theorem Spine.prune : ∀ {f : Forest ρ}, f.Spine c → f.indices.Nodup → f.below? s = some g →
    c ∉ g.indices → c ≠ s → (f.prune s).Spine c
  | scope i below older, hf, hn, hg, hc, hs => by
    obtain ⟨hnb, -, -, -, hd⟩ := nodup_scope.1 hn
    rw [Forest.prune]
    rcases below?_scope hg with ⟨rfl, rfl⟩ | ⟨hi, hg'⟩ | ⟨hi, -, hg'⟩
    · rcases hf with rfl | hb
      · exact absurd rfl hs
      · exact absurd hb.mem_indices hc
    · rw [if_neg hi]
      exact hf.imp id fun hb => hb.prune hnb hg' hc hs
    · have hsb : s ∉ below.indices := fun h => hd s h (mem_indices_of_below? hg')
      rw [if_neg hi, prune_of_notMem hsb]
      exact hf

theorem Spine.attach {r : Index} {release : ρ} : ∀ {f : Forest ρ}, f.Spine c →
    (f.attach r release).Spine c
  | scope _ _ _, hf => hf.imp id Spine.attach

end Forest

namespace Tree

variable {t t' : Tree Release} {w g : Forest Release} {i j s : Index} {issued : List Index}

/-! ## The order of records -/

/-- The records of a tree that are alive come in the order in which they were
    reserved, and the current scope lies on the spine. -/
structure InOrder (t : Tree Release) (w : Forest Release) (issued : List Index) : Prop where
  shows : t.Shows w
  spine : w.Spine t.current
  records : w.records = (issued.filter fun i => (t.record? i).isSome).reverse

theorem inOrder_new (a : UInt32) :
    (Tree.new (ρ := Release) a).InOrder (.scope ⟨a, 0, 0⟩ .nil .nil) [] where
  shows := shows_new a
  spine := .inl rfl
  records := rfl

theorem InOrder.pop (h : t.InOrder w issued) : t.pop.InOrder w issued where
  shows := h.shows.pop
  spine := by
    rw [current_pop]
    rcases hp : t.parent? t.current with _ | q
    · exact h.spine
    · obtain ⟨p, cs, hc⟩ := isScope_iff.1 h.shows.isScope_current
      rw [parent?_of_get? hc] at hp
      subst hp
      have hne : t.current ≠ t.top := by
        intro he
        obtain ⟨ds, htop⟩ := h.shows.get?_top
        rw [he, htop] at hc; cases hc
      obtain ⟨node, q', g, hnode, hq, hg, hr⟩ := h.shows.holder (h.spine.mem_indices) hne
      rw [hc] at hnode; cases hnode
      cases hq
      exact h.spine.of_below h.shows.nodup hg (Forest.mem_indices_of_mem_roots hr)
  records := by
    rw [h.records]
    congr 2
    funext i
    rw [record?_congr (by rw [nodes_pop])]

/-- A scope with nothing newer beside it, in a scope of which the same is true, and so
    on up to the top. -/
inductive Newest (t : Tree Release) : Index → Prop
  | top : Newest t t.top
  | child {s p : Index} {q : Option Index} {cs : List Index} :
    t.nodes.get? p = some (.scope q (s :: cs)) → t.isScope s = true → Newest t p → Newest t s

/-- Such a scope is on the spine. -/
theorem Newest.spine (hs : t.Newest s) (h : t.Shows w) : w.Spine s := by
  induction hs with
  | top =>
    obtain ⟨f, rfl⟩ := h.root
    exact .inl rfl
  | @child s p q cs hp hs _ ih =>
    obtain ⟨g, hg⟩ := h.exists_below? (isScope_iff.2 ⟨q, _, hp⟩)
    obtain ⟨⟨q', hq'⟩, hheld⟩ := h.held.below? hg
    rw [hp] at hq'
    have hroots : g.roots = s :: cs := (Node.scope.inj (Option.some.inj hq')).2.symm
    refine ih.trans h.nodup hg ?_
    cases g with
    | nil => simp [Forest.roots] at hroots
    | record j r older =>
      -- the newest child is a scope
      obtain ⟨rfl, -⟩ := List.cons.inj hroots
      obtain ⟨o, -, hj⟩ := hheld.1
      obtain ⟨p', ds, hs⟩ := isScope_iff.1 hs
      rw [hj] at hs; cases hs
    | scope j below older => exact .inl (List.cons.inj hroots).1

/-- Going back to such a scope keeps the order; a scope that is gone is replaced by the
    top scope. -/
theorem InOrder.enter (h : t.InOrder w issued) (hs : t.isScope s = true → t.Newest s) :
    (t.enter s).InOrder w issued where
  shows := h.shows.enter s
  spine := by
    rw [Tree.enter]
    dsimp only
    split
    · rename_i hscope; exact (hs hscope).spine h.shows
    · exact Newest.top.spine h.shows
  records := h.records

theorem InOrder.push (h : t.InOrder w issued) (hp : t.push = (some i, t')) :
    t'.InOrder (w.mapBelow t.current (.scope i .nil)) issued := by
  obtain ⟨hshows, -, hcur, hi⟩ := h.shows.push hp
  refine ⟨hshows, by rw [hcur]; exact h.spine.push, ?_⟩
  rw [h.spine.records_push h.shows.nodup, h.records]
  congr 2
  funext j
  obtain ⟨p, cs, hc⟩ := isScope_iff.1 h.shows.isScope_current
  by_cases hj : j = i
  · subst hj
    have hnone : t.nodes.get? j = none := by
      rw [← Option.not_isSome_iff_eq_none, ← h.shows.mem_iff]
      exact hi
    rw [record?, record?, get?_push h.shows.isScope_current hp, hnone]
  · rcases ha : t.addChild (.scope (some t.current) []) with ⟨_ | k, u⟩
    · simp [Tree.push, ha] at hp
    · simp only [Tree.push, ha, Prod.mk.injEq, Option.some.injEq] at hp
      obtain ⟨rfl, rfl⟩ := hp
      exact congrArg Option.isSome (record?_addChild hc ha rfl hj).symm

theorem InOrder.reserve (h : t.InOrder w issued) (hr : t.reserve = (some i, t'))
    (hi : i ∉ issued) : t'.InOrder (w.mapBelow t.current (.record i none)) (issued ++ [i]) := by
  obtain ⟨hshows, -, hcur, -⟩ := h.shows.reserve hr
  refine ⟨hshows, by rw [hcur]; exact h.spine.mapBelow, ?_⟩
  obtain ⟨p, cs, hc⟩ := isScope_iff.1 h.shows.isScope_current
  have hself : (t'.record? i).isSome = true := by
    rw [record?, get?_addChild h.shows.isScope_current hr]; rfl
  have hother : issued.filter (fun j => (t'.record? j).isSome) =
      issued.filter fun j => (t.record? j).isSome := List.filter_congr fun j hj => by
    rw [record?_addChild hc hr rfl fun he => hi (he ▸ hj)]
  rw [h.spine.records_reserve h.shows.nodup, h.records, List.filter_append, hother,
    List.reverse_append]
  simp [hself]

theorem InOrder.commit (h : t.InOrder w issued) (i : Index) (r : Release) :
    ∃ w', (t.commit i r).2.InOrder w' issued := by
  by_cases hi : ∃ o old, t.nodes.get? i = some (.record o old)
  · obtain ⟨o, old, hi⟩ := hi
    have hshows := h.shows.commit (r := r) hi
    have hrec := record?_set (t := t) hi (show (t.commit i r).2.nodes = _ by rw [commit_of_record hi])
    refine ⟨w.attach i r, hshows, ?_, ?_⟩
    · rw [commit_of_record hi]
      exact h.spine.attach
    · rw [Forest.records_attach, h.records]
      congr 2
      funext j
      rw [hrec j]
      split
      · rename_i hj
        rw [hj, record?_eq_some_iff.2 hi]; rfl
      · rfl
  · rw [commit_of_not_record fun o old h => hi ⟨o, old, h⟩]
    exact ⟨w, h⟩

theorem InOrder.write (h : t.InOrder w issued) (i : Index) (position : Nat) (byte : UInt8) :
    ∃ w', (t.write i position byte).InOrder w' issued := by
  unfold Tree.write
  split
  · exact h.commit i _
  · exact ⟨w, h⟩

/-- After a teardown the current scope is on the spine: it is the one that was, or
    the parent of the scope that is gone. -/
theorem InOrder.spine_currentAfter (h : t.InOrder w issued) (hg : w.below? s = some g)
    (hs : s ≠ t.top) : (w.prune s).Spine (t.currentAfter s) := by
  obtain ⟨q, f, pq, hgs, hf, -, hsf, hqg, hqs⟩ := h.shows.above hg hs
  have hcur := h.shows.isWithin_iff (s := s) h.shows.current
  rw [currentAfter, parent?_of_get? hgs]
  split
  · rename_i hin
    have hspine : w.Spine s := by
      rcases hcur.1 hin with he | ⟨g', hg', hc⟩
      · rw [← he]; exact h.spine
      · exact h.spine.of_below h.shows.nodup hg' (Forest.mem_indices_of_mem_scopes hc)
    have hq := hspine.of_below h.shows.nodup hf (Forest.mem_indices_of_mem_roots hsf)
    exact hq.prune h.shows.nodup hg hqg hqs
  · rename_i hout
    rw [hcur, not_or] at hout
    refine h.spine.prune h.shows.nodup hg (fun hc => hout.2 ⟨g, hg, ?_⟩) hout.1
    exact ((h.shows.held.below? hg).2.mem_scopes_iff hc).2 (h.shows.held.scope_of_mem h.shows.current)

/-- A teardown takes records out and leaves the others in order. -/
theorem InOrder.destroy (h : t.InOrder w issued) (s : Index) :
    ∃ w', (t.destroy s).2.InOrder w' issued := by
  by_cases hs : t.isScope s = true
  · obtain ⟨g, hg⟩ := h.shows.exists_below? hs
    by_cases htop : s = t.top
    · subst htop
      obtain ⟨t', hrun, hshows, -, hcur⟩ := h.shows.destroy_top hg
      rw [hrun]
      refine ⟨_, hshows, .inl hcur.symm, ?_⟩
      have hnone : issued.filter (fun i => (t'.record? i).isSome) = [] :=
        List.filter_eq_nil_iff.2 fun i _ hi => by
          obtain ⟨⟨o, r⟩, hr⟩ := Option.isSome_iff_exists.1 hi
          have := hshows.mem_records_iff.2 ⟨o, r, record?_eq_some_iff.1 hr⟩
          simp [Forest.records] at this
      rw [hnone]
      rfl
    · obtain ⟨t', hrun, hshows, hT, hcur, -⟩ := h.shows.destroy_scope hg htop
      rw [hrun]
      refine ⟨_, hshows, ?_, ?_⟩
      · rw [hcur]
        exact h.spine_currentAfter hg htop
      · rw [(Forest.scopes_records_prune h.shows.nodup hg).2, h.records, List.filter_reverse,
          List.filter_filter]
        congr 2
        funext i
        rw [hT.record? i]
        by_cases hi : i ∈ g.indices ++ [s] <;> simp [hi]
  · rw [destroy_of_not_scope (by simpa using hs)]
    exact ⟨w, h⟩

/-! ## The order of releases -/

/-- The release of a record, if the record is alive, is committed, and lies in a
    scope or below it. -/
def owed (t : Tree Release) (s i : Index) : Option (Due Release) :=
  match t.record? i with
  | some (o, some r) => if t.isWithin s o then some ⟨i, r⟩ else none
  | _ => none

theorem owed_eq_some_iff {d : Due Release} : t.owed s i = some d ↔ i = d.record ∧
    ∃ o, t.record? i = some (o, some d.release) ∧ t.isWithin s o = true := by
  unfold owed
  constructor
  · intro h
    split at h
    · rename_i o r hr
      split at h
      · rename_i hs; cases h; exact ⟨rfl, o, hr, hs⟩
      · cases h
    · cases h
  · rintro ⟨rfl, o, hr, hs⟩
    rw [hr]
    simp only [hs, if_true]

/-- What a scope owes is what the records below it release. -/
theorem Shows.owed_eq (h : t.Shows w) (hg : w.below? s = some g) (i : Index) :
    t.owed s i = if i ∈ g.records then
      match t.nodes.get? i with
      | some (.record _ (some r)) => some ⟨i, r⟩
      | _ => none
    else none := by
  have hheld := (h.held.below? hg).2
  rcases hi : t.nodes.get? i with _ | ⟨p, cs⟩ | ⟨o, r⟩
  · simp [owed, record?, hi]
  · simp [owed, record?, hi]
  · have hmem : i ∈ g.records ↔ t.isWithin s o = true := by
      rw [← h.mem_below_iff hg hi]
      exact ⟨Forest.mem_indices_of_mem_records,
        fun hig => (hheld.mem_records_iff hig).2 ⟨o, r, hi⟩⟩
    rw [owed, record?_eq_some_iff.2 hi]
    cases r with
    | none => simp
    | some r => simp only [hmem]

/-- A scope that is gone owes nothing. -/
theorem Shows.owed_eq_none (h : t.Shows w) (hs : ¬ t.isScope s = true) (i : Index) :
    t.owed s i = none := by
  rw [Option.eq_none_iff_forall_ne_some]
  intro d hd
  obtain ⟨-, o, hi, hin⟩ := owed_eq_some_iff.1 hd
  obtain ⟨f, hf, -⟩ := h.owner_mem (record?_eq_some_iff.1 hi)
  have ho := Forest.mem_scopes_of_below? hf
  rw [← h.mem_scopes_iff] at hs
  rcases (h.isWithin_iff ho).1 hin with rfl | ⟨g, hg, -⟩
  · exact hs ho
  · exact hs (Forest.mem_scopes_of_below? hg)

/-- A teardown makes due what its scope owes, in the reverse of the order in which
    the records were reserved. -/
theorem InOrder.dueOf_eq (h : t.InOrder w issued) (s : Index) :
    Ledger.dueOf t s = (issued.filterMap (t.owed s)).reverse := by
  by_cases hs : t.isScope s = true
  · obtain ⟨g, hg⟩ := h.shows.exists_below? hs
    obtain ⟨t', w', removed, hrun, -, -⟩ := h.shows.destroy hg
    have hrecords : g.records = (w.records.filter (· ∈ g.records)) :=
      (Forest.filter_mem_eq_of_sublist (Forest.records_below? hg)
        (h.shows.nodup.sublist w.records_sublist)).symm
    have hdue : Ledger.dueOf t s = g.due := by rw [Ledger.dueOf, hrun]; rfl
    rw [hdue, (h.shows.held.below? hg).2.due_eq, hrecords, h.records, List.filter_reverse,
      List.filterMap_reverse, List.filter_filter, List.filterMap_filter]
    congr 1
    refine List.filterMap_congr fun i _ => ?_
    rw [h.shows.owed_eq hg, record?]
    rcases t.nodes.get? i with _ | ⟨p, cs⟩ | ⟨o, _ | r⟩ <;> simp
  · have hnone : issued.filterMap (t.owed s) = [] :=
      List.filterMap_eq_nil_iff.2 fun i _ => h.shows.owed_eq_none hs i
    rw [Ledger.dueOf, destroy_of_not_scope (by simpa using hs), hnone]
    rfl

end Tree

/-! ## Operations -/

variable {l l' : Ledger} {k : ContextId} {h : Hold} {w : Forest Release} {i : Index}
  {steps : List Step} {is : List Index}

/-- Whether a change goes from the current scope only to its parent or to a new
    child: all changes but those that go back to a scope that they name. -/
def Change.plain : Change → Bool
  | push | pop | destroy _ | reserve | commit _ _ | write _ _ _ => true
  | leave _ | enter _ | exit _ _ => false

/-- Whether a change that goes back to a scope goes back to one with nothing newer
    beside it. -/
def Change.Forward : Change → Hold → Prop
  | leave s, h => ∀ p, h.tree.parent? s = some p → h.tree.Newest p
  | exit call _, h => h.tree.isScope call.resume = true → h.tree.Newest call.resume
  | push, _ | pop, _ | destroy _, _ | reserve, _ | commit _ _, _ | write _ _ _, _ | enter _, _ => True

theorem Change.forward_of_plain {c : Change} (hc : c.plain = true) (h : Hold) : c.Forward h := by
  cases c with
  | leave | exit => cases hc
  | _ => trivial

/-- Such changes keep a tree in order. -/
theorem Change.inOrder {c : Change} (hc : c.Forward h) (ho : h.tree.InOrder w is)
    (hn : (is ++ (c.reserved? h).toList).Nodup) :
    ∃ w', (c.apply h).tree.InOrder w' (is ++ (c.reserved? h).toList) := by
  cases c with
  | push =>
    rw [reserved?, Option.toList_none, List.append_nil]
    rcases hp : h.tree.push with ⟨_ | i, u⟩
    · rw [apply, hp, Tree.push_none hp]
      exact ⟨w, ho⟩
    · rw [apply, hp]
      exact ⟨_, ho.push hp⟩
  | reserve =>
    rcases hr : h.tree.reserve with ⟨_ | i, u⟩
    · rw [apply, reserved?, hr, Tree.reserve_none hr, Option.toList_none, List.append_nil]
      exact ⟨w, ho⟩
    · rw [reserved?, hr, Option.toList_some, List.nodup_append] at hn
      rw [apply, reserved?, hr]
      exact ⟨_, ho.reserve hr fun hi => hn.2.2 i hi i (List.mem_singleton_self i) rfl⟩
  | pop =>
    rw [reserved?, Option.toList_none, List.append_nil]
    exact ⟨w, ho.pop⟩
  | destroy s =>
    rw [reserved?, Option.toList_none, List.append_nil]
    exact ho.destroy s
  | commit i r =>
    rw [reserved?, Option.toList_none, List.append_nil]
    exact ho.commit i r
  | write i position byte =>
    rw [reserved?, Option.toList_none, List.append_nil]
    exact ho.write i position byte
  | leave s =>
    rw [reserved?, Option.toList_none, List.append_nil]
    rw [apply, Tree.leaving]
    split
    · rename_i p hp
      exact (ho.enter fun _ => hc p hp).destroy s
    · exact ho.destroy s
  | enter detail =>
    rw [reserved?, Option.toList_none, List.append_nil]
    rcases hp : h.tree.push with ⟨_ | b, u⟩
    · rw [apply, hp]
      exact ⟨w, ho⟩
    · rw [apply, hp]
      exact ⟨_, ho.push hp⟩
  | exit call how =>
    rw [reserved?, Option.toList_none, List.append_nil]
    rcases how with _ | _ | _
    · exact ⟨w, ho.enter hc⟩
    all_goals exact (ho.enter hc).destroy call.boundary

/-- In a context, the records that are alive come in the order in which they were
    reserved. -/
structure Ledger.Ordered (l : Ledger) (k : ContextId) (is : List Index) : Prop where
  unborn : l.count ≤ k → is = []
  tree : ∀ h, l.hold k = some h → ∃ w, h.tree.InOrder w is

theorem Ledger.Ordered.step {s : Step} (ho : s.before.ledger.Ordered k is)
    (hl : s.before.ledger.Sound) (hstep : s.after.ledger = s.op.step s.before.ledger)
    (hforward : ∀ c h, s.op = .change k c → s.before.ledger.hold k = some h → c.Forward h)
    (hn : (is ++ (s.reserved? k).toList).Nodup) :
    s.after.ledger.Ordered k (is ++ (s.reserved? k).toList) := by
  constructor
  · intro hk
    have hcount : s.before.ledger.count ≤ k := (hstep ▸ count_step s.op).trans hk
    have hnone : s.reserved? k = none := by
      rw [Option.eq_none_iff_forall_ne_some]
      intro i hi
      obtain ⟨-, h, hh, -⟩ := Step.reserved?_eq_some_iff.1 hi
      exact absurd (hl.lt k h hh) (Nat.not_lt_of_le hcount)
    rw [ho.unborn hcount, hnone]
    rfl
  · intro h' hk'
    rw [hstep] at hk'
    rcases hold_step s.op hk' with ⟨hop, hk⟩ | ⟨h, c, hk, hop, rfl⟩ | ⟨program, hop, hk, rfl⟩
    · rw [Step.reserved?_of_ne hop, Option.toList_none, List.append_nil]
      exact ho.tree h' hk
    · obtain ⟨w, hw⟩ := ho.tree h hk
      rw [Step.reserved?_of_change hop hk] at hn ⊢
      exact Change.inOrder (hforward c h hop hk) hw hn
    · have hop' : ∀ c, s.op ≠ .change k c := fun c hc => by rw [hop] at hc; cases hc
      rw [Step.reserved?_of_ne hop', ho.unborn hk.ge]
      exact ⟨_, Tree.inOrder_new _⟩

/-- Operations one after the other keep a context in order, as long as none of them goes
    back to a scope with something newer beside it. -/
theorem Trail.ordered_of_forward (ht : Trail l steps l') (hl : l.Sound) (ho : l.Ordered k is)
    (hforward : ∀ s ∈ steps, ∀ c h, s.op = .change k c → s.before.ledger.hold k = some h →
      c.Forward h)
    (hn : (is ++ issued steps k).Nodup) : l'.Ordered k (is ++ issued steps k) := by
  induction ht generalizing is with
  | nil =>
    rw [issued, List.filterMap_nil, List.append_nil]
    exact ho
  | @cons s steps l' hs _ ih =>
    have hissued : issued (s :: steps) k = (s.reserved? k).toList ++ issued steps k := by
      rw [issued, List.filterMap_cons]
      rcases s.reserved? k with _ | i <;> rfl
    rw [hissued, ← List.append_assoc] at hn ⊢
    have hl' : s.after.ledger.Sound := by rw [hs]; exact hl.step s.op
    have hstep := ho.step hl hs (hforward s (List.mem_cons_self ..)) hn.of_append_left
    exact ih hl' hstep (fun s' hs' => hforward s' (List.mem_cons_of_mem _ hs')) hn

theorem Trail.ordered (ht : Trail l steps l') (hl : l.Sound) (ho : l.Ordered k is)
    (hplain : ∀ s ∈ steps, ∀ c, s.op = .change k c → c.plain = true)
    (hn : (is ++ issued steps k).Nodup) : l'.Ordered k (is ++ issued steps k) :=
  ht.ordered_of_forward hl ho (fun s hs c h hop _ => c.forward_of_plain (hplain s hs c hop) h) hn

/-! ## Where releases come from -/

theorem Change.mem_given_iff {c : Change} {d : Due Release} :
    d ∈ c.given ↔ c = .commit d.record d.release := by
  cases c with
  | commit i r =>
    rw [given, List.mem_singleton, commit.injEq]
    exact ⟨fun h => by rw [h]; exact ⟨rfl, rfl⟩, fun ⟨h₁, h₂⟩ => by cases d; simp_all⟩
  | _ => simp [given]

/-- A release that a record has after an operation was there before, or it was
    committed now. -/
theorem committed_step (hl : l.Sound) (op : Op) {h' : Hold} (hk' : (op.step l).hold k = some h')
    {r : Release} (hr : h'.tree.release? i = some r) :
    (∃ h r₀, l.hold k = some h ∧ h.tree.release? i = some r₀ ∧ r₀.outline = r.outline) ∨
      op = .change k (.commit i r) := by
  rcases hold_step op hk' with ⟨-, hk⟩ | ⟨h, c, hk, rfl, rfl⟩ | ⟨program, -, -, rfl⟩
  · exact .inl ⟨h', r, hk, hr, rfl⟩
  · obtain ⟨w, hw⟩ := hl.shows k h hk
    rcases (Change.outcome hw c).1.origin hw.isScope_current hr with ⟨-, ⟨r₀, hr₀, ho⟩ | hg⟩
    · exact .inl ⟨h, r₀, hk, hr₀, ho⟩
    · exact .inr (by rw [Change.mem_given_iff.1 hg])
  · cases (Tree.release?_new _ i).symm.trans hr

/-- A release that a record has was there at the beginning, or it was committed. -/
theorem Trail.committed (ht : Trail l steps l') (hl : l.Sound) {h' : Hold}
    (hk' : l'.hold k = some h') {r : Release} (hr : h'.tree.release? i = some r) :
    (∃ h r₀, l.hold k = some h ∧ h.tree.release? i = some r₀ ∧ r₀.outline = r.outline) ∨
      ∃ s ∈ steps, ∃ r₀, s.op = .change k (.commit i r₀) ∧ r₀.outline = r.outline := by
  induction ht with
  | nil => exact .inl ⟨h', r, hk', hr, rfl⟩
  | @cons s steps l' hs _ ih =>
    rw [hs] at ih
    rcases ih (hl.step s.op) hk' with ⟨h, r₀, hk, hr₀, ho⟩ | ⟨s', hs', r₀, hop, ho⟩
    · rcases committed_step hl s.op hk hr₀ with ⟨x, r₁, hx, hr₁, ho'⟩ | hop
      · exact .inl ⟨x, r₁, hx, hr₁, ho'.trans ho⟩
      · exact .inr ⟨s, List.mem_cons_self .., r₀, hop, ho⟩
    · exact .inr ⟨s', List.mem_cons_of_mem _ hs', r₀, hop, ho⟩

/-! ## A whole run -/

/-- What a teardown of a scope of the context `k` has run, after the operations
    `pre`, when `t` was the tree of the context. -/
structure RunsInReverse (t : Tree Release) (scope : Index) (k : ContextId) (pre : List Step)
    (ran ran' : List (Due Release)) : Prop where
  /-- What has run are the releases that the scope owed, in the reverse of the order
      of reservation; after one that drops another context, those of that one. -/
  inTurn : ∃ new, ran' = new.reverse ++ ran ∧
    Ledger.InTurn ((issued pre k).filterMap (t.owed scope)).reverse new
  /-- If none of them drops a context, nothing else has run. -/
  alone : (∀ d ∈ (issued pre k).filterMap (t.owed scope), ∀ label victim,
    d.release ≠ .dropContext label victim) → ran' = (issued pre k).filterMap (t.owed scope) ++ ran
  /-- The scope owed what was committed on the live records within it. -/
  owed : ∀ d, d ∈ (issued pre k).filterMap (t.owed scope) ↔
    ∃ o, t.record? d.record = some (o, some d.release) ∧ t.isWithin scope o = true
  committed : ∀ d ∈ (issued pre k).filterMap (t.owed scope), ∃ s ∈ pre, ∃ r,
    s.op = .change k (.commit d.record r) ∧ r.outline = d.release.outline

/-- What a teardown makes due runs in turn. -/
theorem ran_of_teardown {s : Step} {scope : Index}
    (hstep : s.after.ledger = s.op.step s.before.ledger) (hl : s.before.ledger.Sound)
    (hk : s.before.ledger.hold k = some h)
    (hop : s.op = .change k (.destroy scope) ∨ s.op = .dropContext k ∧ scope = h.tree.top) :
    ∃ new, s.after.journal.ran = new.reverse ++ s.before.journal.ran ∧
      Ledger.InTurn (Ledger.dueOf h.tree scope) new := by
  show ∃ new : List (Due Release), s.after.ledger.ran = new.reverse ++ s.before.ledger.ran ∧ _
  rw [hstep]
  rcases hop with hop | ⟨hop, rfl⟩
  · rw [hop, Op.step, Ledger.answer_of_hold hk]
    exact Ledger.inTurn_releaseAll Ledger.outlasts_drop _
      (s.before.ledger.onHold k (Change.apply (.destroy scope)))
  · obtain ⟨b, hb⟩ : ∃ b, s.before.ledger.count = b + 1 :=
      Nat.exists_eq_succ_of_ne_zero (Nat.ne_of_gt (Nat.lt_of_le_of_lt (Nat.zero_le k) (hl.lt k h hk)))
    rw [hop, Op.step, Ledger.drop, hb, Ledger.dropWithin, hk]
    exact Ledger.inTurn_releaseAll (Ledger.outlasts_dropWithin b) _ (s.before.ledger.take k)

theorem Tree.InOrder.mem_owed_iff {t : Tree Release} (h : t.InOrder w is) (scope : Index)
    (d : Due Release) : d ∈ is.filterMap (t.owed scope) ↔
      ∃ o, t.record? d.record = some (o, some d.release) ∧ t.isWithin scope o = true := by
  simp only [List.mem_filterMap, owed_eq_some_iff]
  constructor
  · rintro ⟨i, -, rfl, ho⟩; exact ho
  · rintro ⟨o, hi, hs⟩
    have hmem := h.shows.mem_records_iff.2 ⟨o, _, record?_eq_some_iff.1 hi⟩
    rw [h.records, List.mem_reverse, List.mem_filter] at hmem
    exact ⟨d.record, hmem.1, rfl, o, hi, hs⟩

/-- Releases run in the strict reverse of the order in which their records were
    reserved, whatever scopes they are in and in whatever order they were
    committed.  Other contexts may do what they like. -/
theorem reverse_of_reservation {α : Type} {run : Run α} {host : Host} {identity : String}
    {log : Option Log} {r : Except Stop α} {world : World}
    (hrun : Performs run (World.new host identity log) steps r world)
    (hplain : ∀ s ∈ steps, ∀ c, s.op = .change k c → c.plain = true)
    (hv : ∀ n, vacations steps k n < 2 ^ 32) :
    (issued steps k).Nodup ∧ ∀ pre s post, steps = pre ++ s :: post →
      ∀ h scope, s.before.ledger.hold k = some h →
        (s.op = .change k (.destroy scope) ∨ s.op = .dropContext k ∧ scope = h.tree.top) →
          RunsInReverse h.tree scope k pre s.before.journal.ran s.after.journal.ran := by
  have hl₀ := sound_new host identity log
  have ho₀ : (World.new host identity log).ledger.Ordered k [] :=
    ⟨fun _ => rfl, fun h hk => by rw [hold_new] at hk; cases hk⟩
  have hnodup := issued_nodup hrun.trail hl₀ hv
  refine ⟨hnodup, ?_⟩
  rintro pre s post rfl h scope hk hop
  obtain ⟨hpre, hstep, -⟩ := hrun.trail.split
  have hl := hpre.sound hl₀
  have hissued : issued (pre ++ s :: post) k = issued pre k ++ issued (s :: post) k :=
    List.filterMap_append
  rw [hissued] at hnodup
  have hordered := hpre.ordered hl₀ ho₀
    (fun s' hs' => hplain s' (List.mem_append_left _ hs')) hnodup.of_append_left
  obtain ⟨w, hw⟩ := hordered.tree h hk
  rw [List.nil_append] at hw
  obtain ⟨new, hran, hturn⟩ := ran_of_teardown hstep hl hk hop
  rw [hw.dueOf_eq] at hturn
  refine ⟨⟨new, hran, hturn⟩, fun hdrop => ?_, hw.mem_owed_iff scope, fun d hd => ?_⟩
  · rw [hran, hturn.eq fun d hd => hdrop d (List.mem_reverse.1 hd), List.reverse_reverse]
  · obtain ⟨o, hi, -⟩ := (hw.mem_owed_iff scope d).1 hd
    have hrel : h.tree.release? d.record = some d.release := by rw [Tree.release?, hi]; rfl
    rcases hpre.committed hl₀ hk hrel with ⟨x, r₀, hx, -⟩ | hcom
    · rw [hold_new] at hx; cases hx
    · exact hcom

/-- A context with a scope that was left again and holds two records, the newer of
    which was committed first. -/
def twoInScope : Run Unit := do
  let k ← Run.newContext "example"
  let _ ← Run.pushScope k
  let first ← Run.reserve k
  let second ← Run.reserve k
  Run.commit k second (.note "second" false)
  Run.commit k first (.note "first" false)
  let _ ← Run.popScope k

/-- The theorem above where that scope is destroyed. -/
theorem reverse_of_reservation_twoInScope : ∃ t pre ran ran',
    RunsInReverse t ⟨0, 1, 0⟩ 0 pre ran ran' ∧ issued pre 0 = [⟨0, 2, 0⟩, ⟨0, 3, 0⟩] ∧
      ran'.map (·.record) = [⟨0, 2, 0⟩, ⟨0, 3, 0⟩] := by
  obtain ⟨pre, w, hpre, hops, hissued⟩ : ∃ pre w,
      Performs twoInScope .start pre (.ok ()) w ∧
      pre.map (·.op) = [.newContext "example", .change 0 .push, .change 0 .reserve,
        .change 0 .reserve, .change 0 (.commit ⟨0, 3, 0⟩ (.note "second" false)),
        .change 0 (.commit ⟨0, 2, 0⟩ (.note "first" false)), .change 0 .pop] ∧
      issued pre 0 = [⟨0, 2, 0⟩, ⟨0, 3, 0⟩] :=
    ⟨_, _, .bind (.of_ok (.newContext "example") rfl rfl)
      (.bind (.of_ok (.change 0 .push) rfl rfl)
      (.bind (.of_ok (.change 0 .reserve) rfl rfl)
      (.bind (.of_ok (.change 0 .reserve) rfl rfl)
      (.bind (.of_ok (.change 0 (.commit ⟨0, 3, 0⟩ (.note "second" false))) rfl rfl)
      (.bind (.of_ok (.change 0 (.commit ⟨0, 2, 0⟩ (.note "first" false))) rfl rfl)
      (.bind (.of_ok (.change 0 .pop) rfl rfl) (.aside rfl rfl))))))), rfl, rfl⟩
  obtain rfl : w = (twoInScope.exec .start).2 := by rw [hpre.exec_eq]
  have hok : ((Run.destroyScope 0 ⟨0, 1, 0⟩).exec (twoInScope.exec .start).2).1 = .ok true := by
    decide +kernel
  obtain ⟨w', hexec⟩ := Run.exists_exec_eq hok
  obtain ⟨s, hs⟩ : ∃ s : Step, s = ⟨(twoInScope.exec .start).2, .change 0 (.destroy ⟨0, 1, 0⟩), w'⟩ :=
    ⟨_, rfl⟩
  have hop : s.op = .change 0 (.destroy ⟨0, 1, 0⟩) := by rw [hs]
  have hrun : Performs (twoInScope >>= fun _ => Run.destroyScope 0 ⟨0, 1, 0⟩) .start (pre ++ [s])
      (.ok true) w' := by
    rw [hs]
    exact hpre.bind (.op _ rfl hexec (by simp))
  have hplain : ∀ s' ∈ pre ++ [s], ∀ c, s'.op = .change 0 c → c.plain = true := by
    intro s' hs c hc
    rcases List.mem_append.1 hs with hs | hs
    · have hmem := List.mem_map_of_mem (f := (·.op)) hs
      rw [hops, hc] at hmem
      simp only [List.mem_cons, Op.change.injEq, List.not_mem_nil, reduceCtorEq, false_or,
        true_and, or_false] at hmem
      rcases hmem with rfl | rfl | rfl | rfl | rfl | rfl <;> rfl
    · rw [List.mem_singleton.1 hs, hop] at hc
      cases hc; rfl
  have hv : ∀ n, vacations (pre ++ [s]) 0 n < 2 ^ 32 := fun n =>
    Nat.lt_of_le_of_lt (vacations_le _ 0 n) (by
      rw [List.length_append, ← List.length_map (·.op), hops, List.length_singleton]; decide)
  obtain ⟨c, hc⟩ := Option.isSome_iff_exists.1
    (show ((twoInScope.exec .start).2.context? 0).isSome = true by decide +kernel)
  have h := (reverse_of_reservation hrun hplain hv).2 pre s [] rfl c.hold ⟨0, 1, 0⟩
    (by rw [hs]; exact World.hold_of_context? hc) (.inl hop)
  have hran : ((Run.destroyScope 0 ⟨0, 1, 0⟩).exec (twoInScope.exec .start).2).2.journal.ran.map
      (·.record) = [⟨0, 2, 0⟩, ⟨0, 3, 0⟩] := by decide +kernel
  rw [hexec] at hran
  exact ⟨_, pre, _, _, h, hissued, by rw [hs]; exact hran⟩

end ScopedResources
