/-
  The lifetime of a scope.

  A scope is alive from the moment it is begun up to the first teardown of the
  scope itself or of a scope around it, and never again: later nodes that use its
  slot have another generation.  So its index may be kept for as long as one
  likes, and what is done through it once it is gone does nothing.

  * `Step.Begins`: an operation begins a scope.
  * `Step.keeps_iff`: one operation keeps a scope unless it tears the scope or one
    around it down; `Trail.isScope_iff` is that for a whole run.
  * `Run.EndsScope`: a run ends a scope by its index, with all that is in it.
  * `Lifetime` is what is known of the index of a scope at any later moment, and
    `scope_lifetime` proves it for all runs.
-/
import ScopedResources.Proofs.Conservation
import ScopedResources.Proofs.Unfolding

namespace ScopedResources

open Relation

/-- Whether an operation begins a scope in a context, by a push or as the boundary
    of a protected call. -/
def Step.Begins (s : Step) (k : ContextId) (i : Index) : Prop :=
  (s.op = .change k .push ∨ ∃ detail, s.op = .change k (.enter detail)) ∧
    ∃ h, s.before.ledger.hold k = some h ∧ h.tree.push.1 = some i

/-- Whether an operation ends a scope of a context that is alive, by its index. -/
def Step.Ends (s : Step) (k : ContextId) (i : Index) : Prop :=
  (s.op = .change k (.destroy i) ∨ s.op = .change k (.leave i)) ∧
    ∃ h, s.before.ledger.hold k = some h ∧ h.tree.isScope i = true

variable {l l' : Ledger} {k : ContextId} {h : Hold} {i : Index} {s : Step} {steps : List Step}
  {w w' : World} {c c' : Context}

/-! ## One operation -/

namespace Tree

variable {t t' : Tree Release} {f g : Forest Release} {torn : Option Index}
  {given due : List (Due Release)} {o : Index}

/-- A teardown of a scope takes away the scopes that are within it, but for the top
    scope. -/
theorem Shows.mem_tornBy_scope_iff (h : t.Shows f) (hg : f.below? o = some g)
    (hi : t.isScope i = true) (htop : i ≠ t.top) : i ∈ t.tornBy o g ↔ t.isWithin o i = true := by
  have hscope : i ∈ g.indices ↔ i ∈ g.scopes :=
    ⟨fun hm => ((h.held.below? hg).2.mem_scopes_iff hm).2 (isScope_iff.1 hi),
      Forest.mem_indices_of_mem_scopes⟩
  have hbelow : (∃ g', f.below? o = some g' ∧ i ∈ g'.scopes) ↔ i ∈ g.indices := by
    simp only [hg, Option.some.injEq, exists_eq_left', hscope]
  rw [h.isWithin_iff (h.mem_scopes_iff.2 hi), hbelow, tornBy]
  split
  · rename_i ho
    rw [or_iff_right]
    exact fun he => htop (he.trans ho)
  · rw [List.mem_append, List.mem_singleton, or_comm]

/-- A scope stays, unless it is within the scope that is torn down. -/
theorem Outcome.isSome_iff (h : t.Outcome t' torn given due) (hc : t.isScope t.current = true)
    (hi : t.isScope i = true) (htop : i ≠ t.top) :
    (t'.nodes.get? i).isSome ↔ ∀ o, torn = some o → ¬ t.isWithin o i = true := by
  obtain ⟨p, cs, hc⟩ := isScope_iff.1 hc
  obtain ⟨q, ds, hget⟩ := isScope_iff.1 hi
  have hsome : (t.nodes.get? i).isSome := by rw [hget]; rfl
  have hstays : torn = none → (t'.nodes.get? i).isSome = (t.nodes.get? i).isSome →
      ((t'.nodes.get? i).isSome ↔ ∀ o, torn = some o → ¬ t.isWithin o i = true) := by
    rintro rfl he
    exact ⟨fun _ o ho => (by cases ho), fun _ => he ▸ hsome⟩
  cases h with
  | still hn _ => exact hstays rfl (by rw [hn])
  | added _ _ ha hn _ =>
    obtain ⟨nodes, hI, hc', rfl⟩ := addChild_some hc ha
    refine hstays rfl ?_
    rw [hn, Slots.isSome_get?_set, hI.other i]
    rintro rfl
    rw [hI.fresh] at hget; cases hget
  | attached _ hn _ => exact hstays rfl (by rw [hn, Slots.isSome_get?_set])
  | written _ hn _ => exact hstays rfl (by rw [hn, Slots.isSome_get?_set])
  | late _ hn _ => exact hstays rfl (by rw [hn])
  | @torn o _ g ht hg hT =>
    have hmem := ht.mem_tornBy_scope_iff hg hi htop
    constructor
    · rintro hs _ ⟨⟩ hin
      rw [hT.gone i (hmem.2 hin)] at hs
      cases hs
    · intro hall
      have hrest := hT.rest i (mt hmem.1 (hall o rfl))
      rw [hget, Option.map_some] at hrest
      obtain ⟨node, hn, -⟩ := Option.map_eq_some_iff.1 hrest
      rw [hn]; rfl

/-- Nothing is left of a scope that is torn down, unless it is the top scope. -/
theorem Outcome.gone (h : t.Outcome t' (some o) given due) (htop : o ≠ t.top)
    (hi : ReflTransGen t.HasChild o i) : t'.nodes.get? i = none := by
  cases h with
  | torn ht hg hT =>
    refine hT.gone i ?_
    rw [tornBy, if_neg htop, List.mem_append, List.mem_singleton, ht.below_iff hg]
    exact (reflTransGen_iff_eq_or_transGen.1 hi).symm

end Tree

/-- The scope that an operation begins is alive after it, empty, in the scope that
    was current, and its index found nothing before. -/
theorem Step.Begins.scope (hs : s.Begins k i) (hstep : s.after.ledger = s.op.step s.before.ledger)
    (hl : s.before.ledger.Sound) : ∃ h h', s.before.ledger.hold k = some h ∧
      s.after.ledger.hold k = some h' ∧ h.tree.nodes.get? i = none ∧
        h'.tree.nodes.get? i = some (.scope (some h.tree.current) []) := by
  obtain ⟨hop, h, hk, hp⟩ := hs
  obtain ⟨f, hf⟩ := hl.shows k h hk
  have hpush : h.tree.push = (some i, h.tree.push.2) := Prod.ext hp rfl
  obtain ⟨-, -, -, hi⟩ := hf.push hpush
  have hnew := Tree.get?_push hf.isScope_current hpush
  have hnone : h.tree.nodes.get? i = none := by
    rw [← Option.not_isSome_iff_eq_none, ← hf.mem_iff]
    exact hi
  have hafter : ∀ c : Change, s.op = .change k c → c.due (s.before.ledger.answer k) = [] →
      s.after.ledger.hold k = some (c.apply h) := by
    intro c hc hdue
    rw [hstep, hc, Op.step, hdue, Ledger.releaseAll, Ledger.hold_onHold, if_pos rfl, hk]
    rfl
  rcases hop with hop | ⟨detail, hop⟩
  · exact ⟨h, _, hk, hafter _ hop rfl, hnone, hnew⟩
  · refine ⟨h, _, hk, hafter _ hop rfl, hnone, ?_⟩
    rw [Change.apply, hpush]
    exact hnew

/-- A scope that is begun is not the top scope. -/
theorem Step.Begins.ne_top (hs : s.Begins k i) (hstep : s.after.ledger = s.op.step s.before.ledger)
    (hl : s.before.ledger.Sound) (ht : Trail s.after.ledger steps l') (hk : l'.hold k = some h) :
    i ≠ h.tree.top := by
  obtain ⟨_, h₀, -, hk₀, -, hi⟩ := hs.scope hstep hl
  have hl' : s.after.ledger.Sound := by rw [hstep]; exact hl.step s.op
  obtain ⟨f, hf⟩ := hl'.shows k h₀ hk₀
  rw [top_trail ht hl' hk₀ hk]
  rintro rfl
  obtain ⟨ds, htop⟩ := hf.get?_top
  rw [htop] at hi; cases hi

/-- An operation keeps a scope that is alive, unless it tears down the scope itself
    or one that the scope is within. -/
theorem Step.keeps_iff (hl : s.before.ledger.Sound)
    (hstep : s.after.ledger = s.op.step s.before.ledger) (hk : s.before.ledger.hold k = some h)
    (hi : h.tree.isScope i = true) (htop : i ≠ h.tree.top) :
    s.Keeps k i ↔ ¬ s.op.Tears s.before.ledger k i := by
  rw [Step.Keeps, Op.Tears, hstep]
  rcases hk' : (s.op.step s.before.ledger).hold k with _ | h'
  · simp
  · simp only [Option.some.injEq, exists_eq_left', reduceCtorEq, false_or]
    obtain ⟨f, hf⟩ := hl.shows k h hk
    rcases hold_step s.op hk' with ⟨hop, hsame⟩ | ⟨x, c, hx, hop, rfl⟩ | ⟨program, -, hcount, -⟩
    · rw [hk] at hsame; cases hsame
      obtain ⟨p, cs, hget⟩ := Tree.isScope_iff.1 hi
      rw [hget]
      exact ⟨fun _ ⟨x, c, o, hc, _⟩ => hop c hc, fun _ => rfl⟩
    · rw [hk] at hx; cases hx
      rw [(Change.outcome hf c).1.isSome_iff hf.isScope_current hi htop]
      constructor
      · rintro hall ⟨x, c', o, hc', hx, ho, hin⟩
        rw [hop] at hc'; cases hc'
        rw [hk] at hx; cases hx
        exact hall o ho hin
      · exact fun hnot o ho hin => hnot ⟨h, c, o, hop, hk, ho, hin⟩
    · exact absurd hcount (Nat.ne_of_lt (hl.lt k h hk))

/-! ## A whole run -/

/-- A scope that was begun in another is alive all along if and only if nothing has
    torn it down, or a scope that it was within. -/
theorem Trail.keeps_iff (ht : Trail l steps l') (hl : l.Sound) (hk : l.hold k = some h)
    {q : Index} {cs : List Index} (hi : h.tree.nodes.get? i = some (.scope (some q) cs)) :
    (∀ s ∈ steps, s.Keeps k i) ↔ ∀ s ∈ steps, ¬ s.op.Tears s.before.ledger k i := by
  induction ht generalizing h cs with
  | nil => simp
  | @cons s steps l' hs ht ih =>
    obtain ⟨f, hf⟩ := hl.shows k h hk
    have htop : i ≠ h.tree.top := by
      rintro rfl
      obtain ⟨ds, htop⟩ := hf.get?_top
      rw [htop] at hi; cases hi
    rw [List.forall_mem_cons, List.forall_mem_cons,
      Step.keeps_iff hl hs hk (Tree.isScope_iff.2 ⟨_, _, hi⟩) htop]
    refine and_congr_right fun hnot => ?_
    have hkeeps := (Step.keeps_iff hl hs hk (Tree.isScope_iff.2 ⟨_, _, hi⟩) htop).2 hnot
    obtain ⟨h', cs', hk', hi'⟩ := Step.scope_of_keeps hs hl hk hi hkeeps
    exact ih (by rw [hs]; exact hl.step s.op) hk' hi'

/-- A scope is alive if and only if nothing has torn it down, or a scope that it was
    within, as long as its slot is not vacated 2^32 times. -/
theorem Step.Begins.isScope_iff (hs : s.Begins k i)
    (hstep : s.after.ledger = s.op.step s.before.ledger) (hl : s.before.ledger.Sound)
    (ht : Trail s.after.ledger steps l') (hv : vacations steps k i.slot < 2 ^ 32)
    (hk : l'.hold k = some h) :
    h.tree.isScope i = true ↔ ∀ s ∈ steps, ¬ s.op.Tears s.before.ledger k i := by
  obtain ⟨_, h₀, -, hk₀, -, hi⟩ := hs.scope hstep hl
  have hl' : s.after.ledger.Sound := by rw [hstep]; exact hl.step s.op
  rw [← ht.keeps_iff hl' hk₀ hi]
  exact (isScope_iff_keeps ht hl' hk₀ hk hi hv).1

/-- An operation that ends a scope tears it down. -/
theorem Step.Ends.tears (hs : s.Ends k i) (hl : s.before.ledger.Sound) :
    s.op.Tears s.before.ledger k i := by
  obtain ⟨hop, h, hk, hi⟩ := hs
  obtain ⟨f, hf⟩ := hl.shows k h hk
  have hself : h.tree.isWithin i i = true := (hf.isWithin_iff (hf.mem_scopes_iff.2 hi)).2 (.inl rfl)
  rcases hop with hop | hop
  · exact .inr ⟨h, _, i, hop, hk, by rw [Change.tears, if_pos hi], hself⟩
  · exact .inr ⟨h, _, i, hop, hk, by rw [Change.tears, if_pos hi], hself⟩

/-! ## Answers -/

/-- In a world, a run answers `b` unless it ends the process; where the answer is no,
    it releases nothing and changes no context. -/
structure Run.Answers (run : Run Bool) (w : World) (b : Bool) : Prop where
  result : (run.exec w).1 = .error .abort ∨ (run.exec w).1 = .ok b
  idle : b = false → (run.exec w).1 = .ok false ∧ (run.exec w).2.contexts = w.contexts ∧
    (run.exec w).2.journal.ran = w.journal.ran

theorem Tree.isSome_destroy (t : Tree Release) (s : Index) : (t.destroy s).1.isSome = t.isScope s := by
  unfold Tree.destroy Tree.isScope
  rcases t.scope? s with _ | ⟨parent, children⟩ <;> rfl

/-- A change that changes nothing. -/
theorem World.onContext_eq_self {α : Type} {f : Context → α × Context}
    (hf : (f (w.context k)).2 = w.context k) :
    w.onContext k f = ((f (w.context k)).1, w) := by
  refine Prod.ext (Run.onContext_fst w k f) ?_
  unfold World.onContext
  rcases Run.context_eq w k with ⟨c, hk, hc⟩ | ⟨hk, hc⟩
  · have hcontext : w.context k = c := World.context_of_context? hc
    rw [hcontext] at hf
    rw [hk]
    dsimp only
    rw [hf, Array.setIfInBounds_setIfInBounds]
    have hsame : w.contexts.setIfInBounds k (some c) = w.contexts := by
      refine Array.ext_getElem? fun j => ?_
      rw [Array.getElem?_setIfInBounds]
      split
      · rename_i hj
        rw [← hj, hk]
        split
        · rfl
        · rename_i hlt
          rw [Array.getElem?_eq_none (Nat.le_of_not_lt hlt)] at hk
          cases hk
      · rfl
    rw [hsame]
  · split
    · rename_i c h; exact absurd h (hk c)
    · rfl

namespace Run

/-- A change of a tree that changes nothing. -/
theorem exec_onTree_self {α : Type} {f : Tree Release → α × Tree Release}
    (hf : (f (w.context k).tree).2 = (w.context k).tree) :
    (onTree k f).exec w = (.ok (f (w.context k).tree).1, w) := by
  have hself : ((fun c : Context => ((f c.tree).1, { c with tree := (f c.tree).2 }))
      (w.context k)).2 = w.context k := by
    dsimp only
    rw [hf]
  have hon : onTree k f = onContext k fun c : Context =>
      ((f c.tree).1, { c with tree := (f c.tree).2 }) := rfl
  rw [hon, exec_onContext, World.onContext_eq_self hself]

theorem exec_destroyScope_dead (hi : (w.context k).tree.isScope i = false) :
    (destroyScope k i).exec w = (.ok false, w) := by
  have hd := Tree.destroy_of_not_scope hi
  have hnone : (onTree k (·.destroy i)).exec w = (.ok none, w) := by
    rw [exec_onTree_self (by rw [hd]), hd]
  rw [destroyScope, exec_bind_ok hnone]
  rfl

/-- A teardown says whether its scope was alive. -/
theorem answers_destroyScope (k : ContextId) (i : Index) (w : World) :
    Answers (destroyScope k i) w ((w.context k).tree.isScope i) := by
  refine ⟨?_, fun hi => by rw [exec_destroyScope_dead hi]; exact ⟨rfl, rfl, rfl⟩⟩
  have hr := (exec_onTree k (·.destroy i) w).1
  have hsome := Tree.isSome_destroy (w.context k).tree i
  obtain ⟨w₁, hw₁⟩ := exists_exec_eq hr
  rw [destroyScope, exec_bind_ok hw₁, ← hsome]
  rcases ((w.context k).tree.destroy i).1 with _ | teardown
  · exact .inr rfl
  · rcases settles_releaseAll settles_dropContext k teardown.due w₁ with habort | ⟨⟨u, hu⟩, -⟩
    · obtain ⟨w₂, hw₂⟩ := exists_exec_eq habort
      left
      dsimp only
      rw [exec_bind_error hw₂]
    · obtain ⟨w₂, hw₂⟩ := exists_exec_eq hu
      right
      dsimp only
      rw [exec_bind_ok hw₂]
      rfl

theorem answers_leaveScope (k : ContextId) (i : Index) (w : World) :
    Answers (leaveScope k i) w ((w.context k).tree.isScope i) := by
  have hview : (view k (·.tree.parent? i)).exec w = (.ok ((w.context k).tree.parent? i), w) := rfl
  rcases hp : (w.context k).tree.parent? i with _ | parent
  · have hexec : (leaveScope k i).exec w = (destroyScope k i).exec w := by
      rw [leaveScope, exec_bind_ok hview, hp]
    obtain ⟨hresult, hidle⟩ := answers_destroyScope k i w
    exact ⟨by rw [hexec]; exact hresult, by rw [hexec]; exact hidle⟩
  · -- a scope that has a parent is alive, and it stays so on the way to its parent
    obtain ⟨⟨p, cs⟩, hscope, rfl⟩ := Option.bind_eq_some_iff.1 hp
    have hi : (w.context k).tree.isScope i = true := by rw [Tree.isScope, hscope]; rfl
    obtain ⟨hr, hl⟩ := exec_onTree k (fun t => ((), t.enter parent)) w
    obtain ⟨w₁, hw₁⟩ := exists_exec_eq hr
    rw [hw₁] at hl
    have hexec : (leaveScope k i).exec w = (destroyScope k i).exec w₁ := by
      rw [leaveScope, exec_bind_ok hview, hp]
      exact exec_bind_ok hw₁
    have htree : (w₁.context k).tree = (w.context k).tree.enter parent :=
      calc (w₁.context k).tree = (w₁.ledger.answer k).tree := congrArg Hold.tree (hold_context w₁ k)
        _ = (w.ledger.answer k).tree.enter parent := by
            rw [hl]; exact Ledger.tree_answer_onHold (Tree.enter_new _ parent)
        _ = (w.context k).tree.enter parent := by rw [← hold_context]; rfl
    have hi₁ : (w₁.context k).tree.isScope i = true := by rw [htree]; exact hi
    have hresult := (answers_destroyScope k i w₁).result
    rw [hi₁] at hresult
    rw [hi]
    exact ⟨by rw [hexec]; exact hresult, fun h => by cases h⟩

/-- A handle that outlived its scope says so, and does nothing else. -/
theorem answers_destroyHandle {α : Type} (k : ContextId) (handle : Handle α) (w : World) :
    Answers (destroyHandle k handle) w ((w.context k).tree.isScope handle.scope) := by
  have hresult := (answers_destroyScope k handle.scope w).result
  rcases hi : (w.context k).tree.isScope handle.scope with _ | _
  · have hexec : (destroyHandle k handle).exec w =
        (.ok false, w.record (.staleHandle handle.scope)) := by
      rw [destroyHandle, exec_bind_ok (exec_destroyScope_dead hi)]
      rfl
    refine ⟨.inr (by rw [hexec]), fun _ => ?_⟩
    rw [hexec]
    exact ⟨rfl, contexts_record _ _, congrArg Ledger.ran (ledger_record _ _)⟩
  · rw [hi] at hresult
    refine ⟨hresult.imp (fun h => ?_) (fun h => ?_), fun h => by cases h⟩
    · obtain ⟨w₁, hw₁⟩ := exists_exec_eq h
      rw [destroyHandle, exec_bind_error hw₁]
    · obtain ⟨w₁, hw₁⟩ := exists_exec_eq h
      rw [destroyHandle, exec_bind_ok hw₁]
      rfl

end Run

/-! ## What a teardown leaves -/

/-- In a world, a run ends a scope of a context by its index: it says whether the scope
    was alive, and if it was, nothing is left of it, nor of what was in it. -/
structure Run.EndsScope (run : Run Bool) (w : World) (k : ContextId) (c : Context) (i : Index) :
    Prop extends Run.Answers run w (c.tree.isScope i) where
  gone : (run.exec w).1 = .ok true → ∀ c', (run.exec w).2.context? k = some c' →
    ∀ j, ReflTransGen c.tree.HasChild i j → c'.tree.nodes.get? j = none

/-- A run that ends a scope by one change. -/
theorem Run.Answers.endsScope {run : Run Bool} {f : Forest Release} (change : Change)
    (h : run.Answers w (c.tree.isScope i)) (hc : w.context? k = some c) (hf : c.tree.Shows f)
    (htop : i ≠ c.tree.top) (htears : c.tree.isScope i = true → change.tears c.hold = some i)
    (hstep : ∀ w', run.exec w = (.ok true, w') → w'.ledger = (Op.change k change).step w.ledger) :
    run.EndsScope w k c i := by
  refine ⟨h, fun htrue c' hc' j hj => ?_⟩
  -- it says yes of a scope that is alive only
  have hi : c.tree.isScope i = true := by
    rcases h.result with hresult | hresult
    · rw [htrue] at hresult; cases hresult
    · rw [htrue] at hresult; injection hresult with hi
      exact hi.symm
  obtain ⟨hhold, -⟩ := hold_change hc hc' (hstep _ (Prod.ext htrue rfl))
  have houtcome := (Change.outcome (h := c.hold) hf change).1
  rw [htears hi, ← hhold] at houtcome
  exact houtcome.gone htop hj

namespace Run

/-- A handle that was alive is its scope destroyed, and nothing more. -/
theorem exec_destroyScope_of_handle {α : Type} {value : α}
    (h : (destroyHandle k ⟨i, value⟩).exec w = (.ok true, w')) :
    (destroyScope k i).exec w = (.ok true, w') := by
  rw [destroyHandle, exec_bind] at h
  rcases hd : (destroyScope k i).exec w with ⟨e | destroyed, w₁⟩
  · rw [hd] at h; cases h
  · rw [hd] at h
    cases destroyed with
    | false => cases h
    | true => cases h; rfl

variable {f : Forest Release}

theorem endsScope_destroyScope (hc : w.context? k = some c) (hf : c.tree.Shows f)
    (htop : i ≠ c.tree.top) : EndsScope (destroyScope k i) w k c i := by
  have h := answers_destroyScope k i w
  rw [World.context_of_context? hc] at h
  exact h.endsScope (.destroy i) hc hf htop (fun hi => if_pos hi) fun w' hw' =>
    step_of_change (.destroy i) rfl hw' (by simp)

theorem endsScope_leaveScope (hc : w.context? k = some c) (hf : c.tree.Shows f)
    (htop : i ≠ c.tree.top) : EndsScope (leaveScope k i) w k c i := by
  have h := answers_leaveScope k i w
  rw [World.context_of_context? hc] at h
  exact h.endsScope (.leave i) hc hf htop (fun hi => if_pos hi) fun w' hw' =>
    step_of_change (.leave i) rfl hw' (by simp)

theorem endsScope_destroyHandle {α : Type} (hc : w.context? k = some c) (hf : c.tree.Shows f)
    (htop : i ≠ c.tree.top) (value : α) : EndsScope (destroyHandle k ⟨i, value⟩) w k c i := by
  have h : Answers (destroyHandle k ⟨i, value⟩) w ((w.context k).tree.isScope i) :=
    answers_destroyHandle k ⟨i, value⟩ w
  rw [World.context_of_context? hc] at h
  exact h.endsScope (.destroy i) hc hf htop (fun hi => if_pos hi) fun w' hw' =>
    step_of_change (.destroy i) rfl (exec_destroyScope_of_handle hw') (by simp)

end Run

/-! ## All runs -/

/-- What is known of the index of a scope that was begun in the context `k`, in the
    world `w` where the context is `c`; the operations `since` lead there from the
    beginning of the scope. -/
structure Lifetime (k : ContextId) (i : Index) (since : List Step) (w : World) (c : Context) :
    Prop where
  /-- It is alive up to the first teardown of the scope or of one that it is within,
      and never after that. -/
  alive : c.tree.isScope i = true ↔ ∀ s ∈ since, ¬ s.op.Tears s.before.ledger k i
  /-- Each way to end it says whether it was alive; it does nothing if it was not, and
      leaves nothing of it if it was. -/
  destroyed : (Run.destroyScope k i).EndsScope w k c i
  left : (Run.leaveScope k i).EndsScope w k c i
  handled : ∀ {α : Type} (value : α), (Run.destroyHandle k ⟨i, value⟩).EndsScope w k c i

/-- A scope that a run begins is alive up to its first teardown, and is ended by its
    index once at most, if its slot is not vacated 2^32 times from then on. -/
theorem scope_lifetime {α : Type} {run : Run α} {host : Host} {identity : String}
    {log : Option Log} {r : Except Stop α} {world : World} {pre post : List Step} {begun : Step}
    (hrun : Performs run (World.new host identity log) (pre ++ begun :: post) r world)
    (hbegun : begun.Begins k i) (hv : vacations post k i.slot < 2 ^ 32) :
    (∀ since rest w c, post = since ++ rest → Trail begun.after.ledger since w.ledger →
      w.context? k = some c → Lifetime k i since w c) ∧
    ∀ since s more s' rest, post = since ++ s :: (more ++ s' :: rest) → s.Ends k i →
      ¬ s'.Ends k i := by
  obtain ⟨hpre, hstep, hpost⟩ := hrun.trail.split
  have hl := hpre.sound (sound_new host identity log)
  have hl' : begun.after.ledger.Sound := by rw [hstep]; exact hl.step begun.op
  constructor
  · rintro since rest w c rfl ht hc
    rw [vacations_append] at hv
    have hk : w.ledger.hold k = some c.hold := World.hold_of_context? hc
    obtain ⟨f, hf⟩ := (ht.sound hl').shows k c.hold hk
    have htop := hbegun.ne_top hstep hl ht hk
    exact ⟨hbegun.isScope_iff hstep hl ht (by omega) hk, Run.endsScope_destroyScope hc hf htop,
      Run.endsScope_leaveScope hc hf htop, fun value => Run.endsScope_destroyHandle hc hf htop value⟩
  · rintro since s more s' rest rfl hs ⟨-, h', hk', hi'⟩
    have hassoc : since ++ s :: (more ++ s' :: rest) = (since ++ s :: more) ++ s' :: rest := by simp
    rw [hassoc] at hpost hv
    rw [vacations_append] at hv
    obtain ⟨hupto, -, -⟩ := hpost.split
    obtain ⟨hsince, -, -⟩ := hupto.split
    -- it was torn down the first time, and has been gone since
    have halive := (hbegun.isScope_iff hstep hl hupto (by omega) hk').1 hi'
    exact halive s (by simp) (hs.tears (hsince.sound hl'))

/-- A context in which a scope was destroyed, and another one uses its slot. -/
def reusedSlot : Run Unit := do
  leftScope
  let _ ← Run.destroyScope 0 ⟨0, 1, 0⟩
  let _ ← Run.pushScope 0

/-- The theorem above for that scope, while it is alive and when it was destroyed. -/
theorem scope_lifetime_reusedSlot :
    (∃ since w c, Lifetime 0 ⟨0, 1, 0⟩ since w c ∧ c.tree.isScope ⟨0, 1, 0⟩ = true) ∧
      ∃ since w c, Lifetime 0 ⟨0, 1, 0⟩ since w c ∧
        c.tree.isScope ⟨0, 1, 0⟩ = false ∧ c.tree.isScope ⟨0, 1, 1⟩ = true := by
  have hdestroy : ((Run.destroyScope 0 ⟨0, 1, 0⟩).exec (leftScope.exec .start).2).1 = .ok true := by
    decide +kernel
  have hpush : ((Run.pushScope 0).exec
      ((Run.destroyScope 0 ⟨0, 1, 0⟩).exec (leftScope.exec .start).2).2).1 = .ok ⟨0, 1, 1⟩ := by
    decide +kernel
  obtain ⟨first, begun, more, hleft, hbegun, hmore⟩ : ∃ first begun more,
      Performs leftScope .start (first :: begun :: more) (.ok ()) (leftScope.exec .start).2 ∧
        begun.Begins 0 ⟨0, 1, 0⟩ ∧ more.length = 3 :=
    ⟨_, _, _, .bind (.of_ok (.newContext "example") rfl rfl)
      (.bind (.of_ok (.change 0 .push) rfl rfl)
      (.bind (.of_ok (.change 0 .reserve) rfl rfl)
      (.bind (.of_ok (.change 0 (.commit ⟨0, 2, 0⟩ (.note "release" false))) rfl rfl)
      (.bind (.of_ok (.change 0 .pop) rfl rfl) (.aside rfl rfl))))),
      ⟨.inl rfl, _, rfl, rfl⟩, rfl⟩
  obtain ⟨last, hrun, hlast⟩ : ∃ last, Performs reusedSlot .start
      ((first :: begun :: more) ++ last) (.ok ()) (reusedSlot.exec .start).2 ∧ last.length = 2 :=
    ⟨_, .bind hleft (.bind (.of_ok (.change 0 (.destroy ⟨0, 1, 0⟩)) rfl hdestroy)
      (.bind (.of_ok (.change 0 .push) rfl hpush) (.aside rfl rfl))), rfl⟩
  have hrun : Performs reusedSlot .start ([first] ++ begun :: (more ++ last)) (.ok ())
      (reusedSlot.exec .start).2 := hrun
  have hv : vacations (more ++ last) 0 1 < 2 ^ 32 :=
    Nat.lt_of_le_of_lt (vacations_le _ 0 1) (by rw [List.length_append, hmore, hlast]; decide)
  have h := (scope_lifetime hrun hbegun hv).1
  constructor
  · obtain ⟨c, hc⟩ := Option.isSome_iff_exists.1
      (show ((leftScope.exec .start).2.context? 0).isSome = true by decide +kernel)
    have halive : ((leftScope.exec .start).2.context? 0).map (·.tree.isScope ⟨0, 1, 0⟩) =
        some true := by decide +kernel
    rw [hc] at halive
    have hleft : Performs leftScope .start ([first] ++ begun :: more) (.ok ())
      (leftScope.exec .start).2 := hleft
    exact ⟨more, _, c, h more last _ c rfl hleft.trail.split.2.2 hc, Option.some.inj halive⟩
  · obtain ⟨c, hc⟩ := Option.isSome_iff_exists.1
      (show ((reusedSlot.exec .start).2.context? 0).isSome = true by decide +kernel)
    have hdead : ((reusedSlot.exec .start).2.context? 0).map (·.tree.isScope ⟨0, 1, 0⟩) =
        some false := by decide +kernel
    have halive : ((reusedSlot.exec .start).2.context? 0).map (·.tree.isScope ⟨0, 1, 1⟩) =
        some true := by decide +kernel
    rw [hc] at hdead halive
    exact ⟨more ++ last, _, c,
      h (more ++ last) [] _ c (List.append_nil _).symm hrun.trail.split.2.2 hc,
      Option.some.inj hdead, Option.some.inj halive⟩

end ScopedResources
