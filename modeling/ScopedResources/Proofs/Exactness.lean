/-
  Teardown is exact.

  The walk of a teardown pops lists of children in place and climbs by links that
  it reads just before it frees a node.  It does what the recursion over the tree
  does: it takes out what is below its scope, in that order, and nothing else.

  * `Tree.TakenOut` says what a tree is like without one of its scopes.
  * `WellFormed.destroy`: a teardown of any scope of a well-formed tree ends, finds
    what the recursion finds, and takes the scope out.
  * `Run.destroyScope_exact`: a context runs what was found, each release in its
    turn.
-/
import ScopedResources.Proofs.Lifetime
import ScopedResources.Proofs.Unfolding

namespace ScopedResources

namespace Tree

open Relation

variable {ρ : Type} {t t' : Tree ρ} {w g : Forest ρ} {s : Index} {l cs : List Index}
  {p : Option Index}

/-- A scope was taken out of a tree with all that was below it, and nothing else
    was changed: `p` is the parent of the scope, `gone` what was below it,
    `removed` the number of nodes that are said to be gone. -/
structure TakenOut (t : Tree ρ) (s : Index) (p : Option Index) (gone : List Index)
    (removed : Nat) (t' : Tree ρ) : Prop where
  subtree : ∀ i, i ∈ gone ↔ TransGen t.HasChild s i
  once : (gone ++ [s]).Nodup
  below : ∀ i ∈ gone, t'.nodes.get? i = none
  self : s ≠ t.top → t'.nodes.get? s = none
  /-- The top scope stays, without children. -/
  root : s = t.top → t'.nodes.get? s = some (.scope none [])
  /-- The parent loses the one entry that it has for the scope; the other
      children stay in order. -/
  parent : s ≠ t.top → ∃ q pq children, p = some q ∧ ¬ ReflTransGen t.HasChild s q ∧
    t.nodes.get? q = some (.scope pq children) ∧ children.count s = 1 ∧
      t'.nodes.get? q = some (.scope pq (children.erase s))
  rest : ∀ i, i ∉ gone → i ≠ s → p ≠ some i → t'.nodes.get? i = t.nodes.get? i
  top : t'.top = t.top
  current_within : ReflTransGen t.HasChild s t.current → t'.current = p.getD t.top
  current_elsewhere : ¬ ReflTransGen t.HasChild s t.current → t'.current = t.current
  count : removed = {i | (t.nodes.get? i).isSome ∧ t'.nodes.get? i = none}.ncard
  size : t'.size + removed = t.size
  wellFormed : t'.WellFormed
  counted : t'.size = {i | (t'.nodes.get? i).isSome}.ncard

theorem Shows.size_eq_ncard (h : t.Shows w) :
    t.size = {i | (t.nodes.get? i).isSome}.ncard := by
  have hset : {i | (t.nodes.get? i).isSome} = (w.indices.toFinset : Set Index) := by
    ext i
    rw [List.coe_toFinset]
    exact h.mem_iff.symm
  rw [h.size, hset, Set.ncard_coe_finset, List.toFinset_card_of_nodup h.nodup]

theorem Shows.currentAfter_within (h : t.Shows w) (hs : t.nodes.get? s = some (.scope p cs)) :
    (ReflTransGen t.HasChild s t.current → t.currentAfter s = p.getD t.top) ∧
      (¬ ReflTransGen t.HasChild s t.current → t.currentAfter s = t.current) := by
  rw [currentAfter, parent?_of_get? hs, ← h.isWithin_iff_reaches h.isScope_current]
  exact ⟨fun hw => if_pos hw, fun hw => if_neg hw⟩

/-- The nodes that are there before and not after are counted by a list of them. -/
theorem ncard_removed (hnd : l.Nodup) (hsome : ∀ i ∈ l, (t.nodes.get? i).isSome)
    (hget : ∀ i, (t.nodes.get? i).isSome → (t'.nodes.get? i = none ↔ i ∈ l)) :
    l.length = {i | (t.nodes.get? i).isSome ∧ t'.nodes.get? i = none}.ncard := by
  have hset : {i | (t.nodes.get? i).isSome ∧ t'.nodes.get? i = none} =
      (l.toFinset : Set Index) := by
    ext i
    rw [List.coe_toFinset]
    exact ⟨fun ⟨hi, hn⟩ => (hget i hi).1 hn, fun hi => ⟨hsome i hi, (hget i (hsome i hi)).2 hi⟩⟩
  rw [hset, Set.ncard_coe_finset, List.toFinset_card_of_nodup hnd]

theorem Shows.takenOut_scope (h : t.Shows w) (hg : w.below? s = some g) (hne : s ≠ t.top)
    (hs : t.nodes.get? s = some (.scope p g.roots)) :
    ∃ t', t.destroy s = (some ⟨g.due, g.indices.length + 1⟩, t') ∧
      t.TakenOut s p g.indices (g.indices.length + 1) t' := by
  obtain ⟨t', hrun, hshows, htorn, hcur, hget⟩ := h.destroy_scope hg hne
  obtain ⟨q, f, pq, hps, hf, hq, hsf, hqg, hqs⟩ := h.above hg hne
  rw [hs] at hps; cases hps
  obtain ⟨hwithin, helse⟩ := h.currentAfter_within hs
  have hlive := h.isSome_of_mem_append hg
  have hlen : (g.indices ++ [s]).length = g.indices.length + 1 := by simp
  refine ⟨t', hrun, ?_⟩
  exact {
    subtree := fun i => h.below_iff hg
    once := h.nodup_append hg
    below := fun i hi => htorn.gone i (List.mem_append_left _ hi)
    self := fun _ => htorn.gone s (List.mem_append_right _ (List.mem_singleton_self s))
    root := fun ht => absurd ht hne
    parent := by
      refine fun _ => ⟨q, pq, f.roots, rfl, ?_, hq, ?_, ?_⟩
      · rw [reflTransGen_iff_eq_or_transGen, ← h.below_iff hg]
        rintro (he | hin)
        · exact hqs he
        · exact hqg hin
      · exact List.count_eq_one_of_mem
          ((Forest.nodup_of_below? h.nodup hf).1.sublist f.roots_sublist) hsf
      · rw [hget, if_neg (by simp [hqg, hqs]), hq]
        rfl
    rest := by
      intro i hi his hip
      rw [hget, if_neg (by simp [hi, his]), h.map_without hf hq hsf, if_neg fun he : i = q => hip (he ▸ rfl)]
    top := htorn.top
    current_within := fun hw => hcur.trans (hwithin hw)
    current_elsewhere := fun hw => hcur.trans (helse hw)
    count := by
      rw [← hlen]
      refine ncard_removed (h.nodup_append hg) hlive fun i hi => ?_
      obtain ⟨node, hn⟩ := Option.isSome_iff_exists.1 hi
      rw [hget, hn]
      split <;> simp_all
    size := by
      have hsize := hshows.size
      have hperm := (Forest.indices_prune h.nodup hg).length_eq
      rw [List.length_append, List.length_cons, ← h.size, ← hsize] at hperm
      omega
    wellFormed := hshows.wellFormed
    counted := hshows.size_eq_ncard }

theorem Shows.takenOut_top (h : t.Shows w) (hg : w.below? t.top = some g)
    (hs : t.nodes.get? t.top = some (.scope p g.roots)) :
    ∃ t', t.destroy t.top = (some ⟨g.due, g.indices.length⟩, t') ∧
      t.TakenOut t.top p g.indices g.indices.length t' := by
  obtain ⟨t', hrun, hshows, htorn, hcur⟩ := h.destroy_top hg
  obtain ⟨hwithin, helse⟩ := h.currentAfter_within hs
  have hp : p = none := by
    obtain ⟨cs, htop⟩ := h.get?_top
    rw [htop] at hs; cases hs
    rfl
  have hself : t'.nodes.get? t.top = some (.scope none []) := hshows.held.1
  have hall : ∀ i, i ∈ g.indices ∨ i = t.top ↔ (t.nodes.get? i).isSome := by
    intro i
    rw [← h.mem_iff, h.eq_top hg]
    simp [Forest.indices]
  have hleft : ∀ i, i ≠ t.top → t'.nodes.get? i = none := by
    intro i hi
    rw [← Option.not_isSome_iff_eq_none, ← hshows.mem_iff]
    simpa [Forest.indices] using hi
  have hwith : ReflTransGen t.HasChild t.top t.current := by
    obtain ⟨q, cs, hc⟩ := isScope_iff.1 h.isScope_current
    rw [reflTransGen_iff_eq_or_transGen, ← h.below_iff hg]
    exact ((hall t.current).2 (by rw [hc]; rfl)).symm
  refine ⟨t', hrun, ?_⟩
  exact {
    subtree := fun i => h.below_iff hg
    once := h.nodup_append hg
    below := htorn.gone
    self := fun hne => absurd rfl hne
    root := fun _ => hself
    parent := fun hne => absurd rfl hne
    rest := by
      intro i hi hit _
      rw [hleft i hit, eq_comm, ← Option.not_isSome_iff_eq_none, ← hall]
      simp [hi, hit]
    top := htorn.top
    current_within := fun _ => by rw [hcur, hp, Option.getD_none]
    current_elsewhere := fun hw => absurd hwith hw
    count := by
      refine ncard_removed (Forest.nodup_of_below? h.nodup hg).1
        (fun i hi => (hall i).1 (.inl hi)) fun i hi => ?_
      rcases (hall i).2 hi with hig | rfl
      · exact ⟨fun _ => hig, fun _ => htorn.gone i hig⟩
      · rw [hself]
        exact ⟨fun hn => (by cases hn),
          fun hig => absurd hig (Forest.nodup_of_below? h.nodup hg).2.1⟩
    size := by
      rw [hshows.size, h.size, h.eq_top hg]
      simp [Forest.indices, Nat.add_comm]
    wellFormed := hshows.wellFormed
    counted := hshows.size_eq_ncard }

/-- What is no live scope is not torn down, and nothing changes.  The teardown of
    a live scope ends: the way up from the current scope is no longer than the
    tree, and the walk finds each child that it looks for and is back at its root
    within two steps a node.  What is due is what the recursion says, in its
    order; the scope is taken out with all that is below it, and nothing else is
    changed. -/
theorem WellFormed.destroy (h : t.WellFormed)
    (hsize : t.size = {i | (t.nodes.get? i).isSome}.ncard) (s : Index) :
    (t.isScope s = false → t.destroy s = (none, t)) ∧
      ∀ p cs, t.nodes.get? s = some (.scope p cs) →
        (∃ path, t.Climb t.current path ∧ path.length ≤ t.size) ∧
        (∃ result, Walked t.top s (2 * t.size + 1) s (detach t.nodes p s) [] result) ∧
        ∃ gone due removed t', t.TearsDown cs gone due ∧
          t.destroy s = (some ⟨due, removed⟩, t') ∧ t.TakenOut s p gone removed t' := by
  obtain ⟨w, hw⟩ := h.shows hsize
  refine ⟨destroy_of_not_scope, fun p cs hs => ?_⟩
  obtain ⟨path, hclimb, hpath, -⟩ := hw.climb hw.current
  obtain ⟨g, hg, rfl⟩ := hw.below?_of_scope hs
  have htears := tearsDown_of_held (hw.held.below? hg).2
  refine ⟨⟨path, hclimb, hpath⟩, hw.exists_walked hs, g.indices, g.due, ?_⟩
  by_cases ht : s = t.top
  · subst ht
    obtain ⟨t', hrun, htaken⟩ := hw.takenOut_top hg hs
    exact ⟨_, t', htears, hrun, htaken⟩
  · obtain ⟨t', hrun, htaken⟩ := hw.takenOut_scope hg ht hs
    exact ⟨_, t', htears, hrun, htaken⟩

end Tree

namespace Run

open Relation

/-- Releases run each in its turn, unless one of them ends the process. -/
theorem ran_releaseAll (k : ContextId) (due : List (Due Release)) (w : World) :
    ((releaseAll dropContext k due).exec w).1 = .error .abort ∨
      ∃ w' ran, (releaseAll dropContext k due).exec w = (.ok (), w') ∧
        w'.journal.ran = ran.reverse ++ w.journal.ran ∧ Ledger.InTurn due ran := by
  refine (settles_releaseAll settles_dropContext k due w).imp_right fun ⟨⟨_, hok⟩, hledger⟩ => ?_
  obtain ⟨w', hw'⟩ := exists_exec_eq hok
  rw [hw'] at hledger
  obtain ⟨ran, hran, hturn⟩ := Ledger.inTurn_releaseAll Ledger.outlasts_drop due w.ledger
  exact ⟨w', ran, hw', (congrArg Ledger.ran hledger).trans hran, hturn⟩

/-- In a context whose tree is well-formed, tearing down what is no live scope
    says so and changes nothing.  The teardown of a live scope ends; the releases
    that the recursion finds are run in its order, in a world that differs from
    the one before in nothing but the tree without the scope, and if none of them
    ends the process, it says that the scope was alive and logs how many nodes are
    gone.  By then each of those releases has run in its turn, and nothing else has,
    but for the releases of a context that one of them drops. -/
theorem destroyScope_exact {w : World} {k : ContextId} {c : Context} (hc : w.context? k = some c)
    (h : c.tree.WellFormed) (hsize : c.tree.size = {i | (c.tree.nodes.get? i).isSome}.ncard)
    (s : Index) :
    (c.tree.isScope s = false → (destroyScope k s).exec w = (.ok false, w)) ∧
      ∀ p cs, c.tree.nodes.get? s = some (.scope p cs) →
        (∃ path, c.tree.Climb c.tree.current path ∧ path.length ≤ c.tree.size) ∧
        (∃ result, Tree.Walked c.tree.top s (2 * c.tree.size + 1) s
          (Tree.detach c.tree.nodes p s) [] result) ∧
        ∃ gone due removed t', c.tree.TearsDown cs gone due ∧ c.tree.TakenOut s p gone removed t' ∧
          ((destroyScope k s).exec w =
            match (releaseAll dropContext k due).exec
              (w.onContext k fun c => ((), { c with tree := t' })).2 with
            | (.ok (), w') => (.ok true, w'.record (.destroyed s removed))
            | (.error e, w') => (.error e, w')) ∧
          (((destroyScope k s).exec w).1 = .error .abort ∨
            ∃ w' ran, (destroyScope k s).exec w = (.ok true, w') ∧
              w'.journal.ran = ran.reverse ++ w.journal.ran ∧ Ledger.InTurn due ran) := by
  have hcontext : w.context k = c := World.context_of_context? hc
  obtain ⟨hnone, hsome⟩ := h.destroy hsize s
  refine ⟨fun hs => exec_destroyScope_dead (by rw [hcontext, hs]), fun p cs hs => ?_⟩
  obtain ⟨hclimb, hwalk, gone, due, removed, t', htears, hrun, htaken⟩ := hsome p cs hs
  -- the world in which the releases run
  obtain ⟨w₁, hw₁⟩ : ∃ w₁, w₁ = (w.onContext k fun c => ((), { c with tree := t' })).2 := ⟨_, rfl⟩
  have htree : (onTree k (·.destroy s)).exec w = (.ok (some ⟨due, removed⟩), w₁) := by
    rw [hw₁, onTree, exec_onContext, onContext_of_context? hc, onContext_of_context? hc, hrun]
  have hran₁ : w₁.journal.ran = w.journal.ran := by rw [hw₁, onContext_of_context? hc]
  have hexec : (destroyScope k s).exec w =
      match (releaseAll dropContext k due).exec w₁ with
      | (.ok (), w') => (.ok true, w'.record (.destroyed s removed))
      | (.error e, w') => (.error e, w') := by
    rw [destroyScope, exec_bind_ok htree]
    dsimp only
    rw [exec_bind]
    rcases (releaseAll dropContext k due).exec w₁ with ⟨e | ⟨⟩, w'⟩ <;> rfl
  refine ⟨hclimb, hwalk, gone, due, removed, t', htears, htaken, hw₁ ▸ hexec, ?_⟩
  rw [hexec]
  rcases ran_releaseAll k due w₁ with habort | ⟨w', ran, hw', hran, hturn⟩
  · obtain ⟨w', hw'⟩ := exists_exec_eq habort
    rw [hw']
    exact .inl rfl
  · rw [hw']
    refine .inr ⟨_, ran, rfl, ?_, hturn⟩
    rw [← hran₁, ← hran]
    exact congrArg Ledger.ran (ledger_record w' _)

end Run

/-- A tree with a scope in a scope and a record in each. -/
def twoDeep : Tree Release :=
  let outer := (Tree.new 0).push.2.reserve.2
  let inner := (outer.commit ⟨0, 2, 0⟩ (.note "outer" false)).2.push.2.reserve.2
  (inner.commit ⟨0, 4, 0⟩ (.note "inner" false)).2

theorem shows_twoDeep : ∃ w, twoDeep.Shows w := by
  obtain ⟨hpush, -⟩ := (Tree.shows_new 0).push (ρ := Release) (i := ⟨0, 1, 0⟩) rfl
  obtain ⟨houter, -⟩ := hpush.reserve (i := ⟨0, 2, 0⟩) rfl
  have hcommit := houter.commit (i := ⟨0, 2, 0⟩) (r := .note "outer" false) rfl
  obtain ⟨hpush', -⟩ := hcommit.push (i := ⟨0, 3, 0⟩) rfl
  obtain ⟨hinner, -⟩ := hpush'.reserve (i := ⟨0, 4, 0⟩) rfl
  exact ⟨_, hinner.commit (i := ⟨0, 4, 0⟩) (r := .note "inner" false) rfl⟩

/-- A world with one context, which has that tree. -/
def World.withTwoDeep : World :=
  { World.start with contexts := #[some { Context.new 0 "example" with tree := twoDeep }] }

/-- The theorem above where the inner one of two scopes is current and the outer
    one is torn down: what the inner one holds is released first. -/
theorem destroyScope_exact_twoDeep :
    ∃ gone removed t' w', twoDeep.TakenOut ⟨0, 1, 0⟩ (some ⟨0, 0, 0⟩) gone removed t' ∧
      (Run.destroyScope 0 ⟨0, 1, 0⟩).exec .withTwoDeep =
        (match (Run.releaseAll Run.dropContext 0
            [⟨⟨0, 4, 0⟩, .note "inner" false⟩, ⟨⟨0, 2, 0⟩, .note "outer" false⟩]).exec
          (World.withTwoDeep.onContext 0 fun c => ((), { c with tree := t' })).2 with
        | (.ok (), w') => (.ok true, w'.record (.destroyed ⟨0, 1, 0⟩ removed))
        | (.error e, w') => (.error e, w')) ∧
      (Run.destroyScope 0 ⟨0, 1, 0⟩).exec .withTwoDeep = (.ok true, w') ∧
      w'.journal.ran =
        [⟨⟨0, 2, 0⟩, .note "outer" false⟩, ⟨⟨0, 4, 0⟩, .note "inner" false⟩] := by
  obtain ⟨w, hw⟩ := shows_twoDeep
  obtain ⟨-, hsome⟩ := Run.destroyScope_exact (w := .withTwoDeep) (k := 0) rfl hw.wellFormed
    hw.size_eq_ncard ⟨0, 1, 0⟩
  obtain ⟨-, -, gone, due, removed, t', htears, htaken, hrun, hran⟩ :=
    hsome (some ⟨0, 0, 0⟩) [⟨0, 3, 0⟩, ⟨0, 2, 0⟩] rfl
  obtain ⟨-, rfl⟩ := htears.unique (.scope (i := ⟨0, 3, 0⟩) rfl (.record (i := ⟨0, 4, 0⟩) rfl .nil)
    (.record (i := ⟨0, 2, 0⟩) rfl .nil))
  have hgoes : ((Run.destroyScope 0 ⟨0, 1, 0⟩).exec .withTwoDeep).1 ≠ .error .abort := by
    decide +kernel
  obtain ⟨w', ran, hexec, hran, hturn⟩ := hran.resolve_left hgoes
  have hturn : Ledger.InTurn
      [⟨⟨0, 4, 0⟩, .note "inner" false⟩, ⟨⟨0, 2, 0⟩, .note "outer" false⟩] ran := hturn
  refine ⟨gone, removed, t', w', htaken, hrun, hexec, ?_⟩
  rw [hran, hturn.eq (by simp)]
  rfl

end ScopedResources
