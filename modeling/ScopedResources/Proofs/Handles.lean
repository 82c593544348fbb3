/-
  Handles.

  A handle is made by one step up from wherever its acquisition has ended.  That is the
  scope in which it began if the acquisition ended in the handle's own scope, or in
  another child of that one; else it is some other scope, and it may be the handle's own,
  so that what is registered next belongs to the handle (`createHandle_stays_inside`).

  * `Acquired` is what there is when a handle has been made.
  * `Untouched` is what is known of it later, if by then nothing has gone back into its
    scope: nothing has been added to it, and destroying it releases what was acquired.
  * `createHandle_ends` proves both, for arbitrary acquisitions.
-/
import ScopedResources.Proofs.Lifetime
import ScopedResources.Proofs.WithScope
import ScopedResources.Proofs.Within

namespace ScopedResources

open Relation

variable {α β : Type} {w w₁ w₂ w₃ w' : World} {k : ContextId} {c c₂ c₃ c' : Context} {s : Index}
  {acquire : Run α} {later : Run β} {a : α} {r : Except Stop β} {steps more : List Step}

/-- What there is when a handle has been made with the scope `s`: `c` is the context
    before, `c₂` when the acquisition has ended, and `c'` in the end. -/
structure Acquired (k : ContextId) (s : Index) (steps : List Step) (c c₂ c' : Context) : Prop where
  nodes : c'.tree.nodes = c₂.tree.nodes
  top : c'.tree.top = c.tree.top
  frame : c'.frame = c₂.frame
  /-- The handle's scope lies in the scope that was current before. -/
  parent : c'.tree.parent? s = some c.tree.current
  /-- What lies in it is what the acquisition has registered while it was in there. -/
  content : ∀ i, TransGen c'.tree.HasChild s i ↔ Registered steps k s i
  current : c'.tree.current = (c₂.tree.parent? c₂.tree.current).getD c₂.tree.current
  /-- It is current again if the acquisition has ended in one of its children, or in
      itself if it is the top scope. -/
  resumed : c'.tree.current = c.tree.current ↔
    c₂.tree.parent? c₂.tree.current = some c.tree.current ∨
      (c.tree.current = c.tree.top ∧ c₂.tree.current = c.tree.top)
  outside : c'.tree.current = c.tree.current → c'.tree.isWithin s c'.tree.current = false

/-- What is known of a handle later, when `more` has been done since it was made. -/
structure Untouched (k : ContextId) (s : Index) (value : α) (steps more : List Step) (w : World)
    (c : Context) : Prop where
  /-- Nothing was registered in its scope. -/
  elsewhere : ∀ st ∈ more, ∀ i h, st.Adds k i h → ¬ h.tree.isWithin s h.tree.current = true
  content : ∀ i, TransGen c.tree.HasChild s i ↔
    Registered steps k s i ∧ ∀ st ∈ more, st.Keeps k i
  /-- Destroying it takes out that, and nothing else. -/
  destroyed : ∃ result w', (Run.destroyHandle k ⟨s, value⟩).exec w = (result, w') ∧
    (result = .error .abort ∨ result = .ok true ∧ ∀ c', w'.context? k = some c' →
      c'.tree.current = c.tree.current ∧ c'.frame = c.frame ∧
        c.Unwound c' s w.journal.ran w'.journal.ran)

namespace Run

theorem exec_createHandle (hc₂ : w₂.context? k = some c₂)
    (hpush : (pushScope k).exec w = (.ok s, w₁)) (hacquire : acquire.exec w₁ = (.ok a, w₂)) :
    ∃ w', (createHandle k acquire).exec w = (.ok ⟨s, a⟩, w') ∧
      (popScope k).exec w₂ = (.ok c₂.tree.current, w') := by
  have hbegun : (createHandle k acquire).exec w =
      (do let value ← acquire; let _ ← popScope k; return ⟨s, value⟩ : Run (Handle α)).exec w₁ :=
    exec_bind_ok hpush
  obtain ⟨w', hpop⟩ := exists_exec_eq (answer_popScope hc₂)
  refine ⟨w', ?_, hpop⟩
  rw [hbegun, exec_bind_ok hacquire, exec_bind_ok hpop]
  rfl

/-- A handle whose scope is alive. -/
theorem exec_destroyHandle (hc : w.context? k = some c) (hs : c.tree.isScope s = true) (value : α) :
    ∃ result w', (destroyHandle k ⟨s, value⟩).exec w = (result, w') ∧
      (result = .error .abort ∨
        result = .ok true ∧ w'.ledger = (Op.change k (.destroy s)).step w.ledger) := by
  have hcontext : w.context k = c := World.context_of_context? hc
  have hanswer := (answers_destroyScope k s w).result
  rw [hcontext, hs] at hanswer
  rcases hanswer with habort | htrue
  · obtain ⟨w', hw'⟩ := exists_exec_eq habort
    exact ⟨_, w', exec_bind_error hw', .inl rfl⟩
  · obtain ⟨w', hw'⟩ := exists_exec_eq htrue
    refine ⟨.ok true, w', ?_, .inr ⟨rfl, step_of_change (.destroy s) rfl hw' (by simp)⟩⟩
    rw [destroyHandle, exec_bind_ok hw']
    rfl

end Run

/-- The teardown of a scope, with the current one outside it. -/
theorem unwound_destroy {f : Forest Release} (hf : c.tree.Shows f) {q : Index} {cs : List Index}
    (hs : c.tree.nodes.get? s = some (.scope (some q) cs))
    (hout : ¬ c.tree.isWithin s c.tree.current = true) (hc : w.context? k = some c)
    (hc' : w'.context? k = some c')
    (hstep : w'.ledger = (Op.change k (.destroy s)).step w.ledger) :
    c'.tree.current = c.tree.current ∧ c'.frame = c.frame ∧
      c.Unwound c' s w.journal.ran w'.journal.ran := by
  obtain ⟨hold, new, hran, hturn⟩ := hold_change hc hc' hstep
  obtain ⟨g, hg, -⟩ := hf.below?_of_scope hs
  have hne : s ≠ c.tree.top := by
    rintro rfl
    obtain ⟨ds, htop⟩ := hf.get?_top
    rw [htop] at hs; cases hs
  obtain ⟨t', hrun, -, -, hcurrent, hget⟩ := hf.destroy_scope hg hne
  have hrun' : c.hold.tree.destroy s = (some ⟨g.due, g.indices.length + 1⟩, t') := hrun
  have htree : c'.tree = t' := by
    rw [← show (c.hold.tree.destroy s).2 = t' by rw [hrun']]
    exact congrArg Hold.tree hold
  subst htree
  rw [Change.due, Ledger.dueOf, hrun'] at hturn
  rw [Tree.currentAfter, if_neg hout] at hcurrent
  exact ⟨hcurrent, congrArg Hold.frame hold, f, g, new, hf, hg, hget, hran, hturn⟩

/-- A handle that was made, and what its scope holds. -/
theorem Acquired.of_pop {l : Ledger} {h : Hold} (hl : l.Sound) (hk : l.hold k = some h)
    (htop : h.tree.top = c.tree.top)
    (hs : h.tree.nodes.get? s = some (.scope (some c.tree.current) []))
    (ht : Trail l steps w₂.ledger) (hkeeps : ∀ st ∈ steps, st.Keeps k s)
    (hc₂ : w₂.context? k = some c₂) (hc' : w'.context? k = some c')
    (hstep : w'.ledger = (Op.change k .pop).step w₂.ledger) : Acquired k s steps c c₂ c' := by
  have hk₂ : w₂.ledger.hold k = some c₂.hold := World.hold_of_context? hc₂
  obtain ⟨hold, -⟩ := hold_change hc₂ hc' hstep
  have htree : c'.tree = c₂.tree.pop := congrArg Hold.tree hold
  obtain ⟨f, hf⟩ := hl.shows k h hk
  obtain ⟨f₂, hf₂⟩ := (ht.sound hl).shows k _ hk₂
  have hf₂ : c₂.tree.Shows f₂ := hf₂
  have hnodes : c'.tree.nodes = c₂.tree.nodes := by rw [htree, Tree.nodes_pop]
  have htop₂ : c₂.tree.top = c.tree.top := (top_trail ht hl hk hk₂).trans htop
  obtain ⟨x, cs, hx, hs₂⟩ := ht.scope_of_keeps hl hk hs hkeeps
  rw [hk₂] at hx; cases hx
  have hs₂ : c₂.tree.nodes.get? s = some (.scope (some c.tree.current) cs) := hs₂
  have hchild : c'.tree.HasChild = c₂.tree.HasChild := by
    funext q i
    rw [Tree.HasChild, Tree.HasChild, hnodes]
  refine ⟨hnodes, ?_, congrArg Hold.frame hold, ?_, fun i => ?_, ?_, ?_, fun hresumed => ?_⟩
  · rw [htree, Tree.top_pop, htop₂]
  · exact Tree.parent?_of_get? (by rw [hnodes]; exact hs₂)
  · -- the scope was empty at first
    have hempty : ¬ TransGen h.tree.HasChild s i := by
      intro hr
      obtain ⟨b, ⟨p, ds, hget, hb⟩, -⟩ := TransGen.head'_iff.1 hr
      rw [hs] at hget; cases hget
      cases hb
    rw [hchild, show c₂.tree = c₂.hold.tree from rfl, ht.below_iff hl hk hk₂,
      or_iff_right fun hr => hempty hr.1]
  · rw [htree, Tree.current_pop]
  · rw [htree, Tree.current_pop]
    obtain ⟨p, ds, hcur⟩ := Tree.isScope_iff.1 hf₂.isScope_current
    rw [Tree.parent?_of_get? hcur]
    rcases p with _ | p
    · have hcurrent : c₂.tree.current = c.tree.top := by
        by_contra hne
        obtain ⟨q, hq, -⟩ := hf₂.wellFormed.once _ _ hcur (htop₂ ▸ hne)
        cases hq
      rw [Option.getD_none, hcurrent]
      simp [eq_comm]
    · have hcurrent : c₂.tree.current ≠ c.tree.top := by
        intro he
        obtain ⟨es, hget⟩ := hf₂.get?_top
        rw [htop₂, ← he, hcur] at hget; cases hget
      simp [hcurrent]
  · -- the scope that it lies in is not within it
    have hf' : c'.tree.Shows f₂ := by rw [htree]; exact hf₂.pop
    have hscope : c'.tree.isScope c.tree.current = true := by
      rw [← hresumed]; exact hf'.isScope_current
    have hchild : c'.tree.HasChild c.tree.current s :=
      hf'.wellFormed.hasChild_iff.2 (by rw [Tree.LiesIn, Tree.holder?, hnodes, hs₂]; rfl)
    rw [hresumed, Bool.eq_false_iff]
    exact fun hin => hf'.wellFormed.not_below_self
      (TransGen.tail' ((hf'.isWithin_iff_reaches hscope).1 hin) hchild)

/-- A handle, from the scope that was current to its end.  If the acquisition succeeds and
    its scope is still alive, it is left by one step up from where the acquisition has ended.
    If that leads out of the handle's scope and nothing goes back there, then what the
    acquisition has registered in it, and nothing else, is released when it is destroyed. -/
theorem createHandle_ends (hw : Reachable w) (hc : w.context? k = some c)
    (hpush : (Run.pushScope k).exec w = (.ok s, w₁))
    (hacquire : Performs acquire w₁ steps (.ok a) w₂) (hkeeps : ∀ st ∈ steps, st.Keeps k s) :
    ∃ c₂ w' c', w₂.context? k = some c₂ ∧
      (Run.createHandle k acquire).exec w = (.ok ⟨s, a⟩, w') ∧ w'.context? k = some c' ∧
      w'.journal.ran = w₂.journal.ran ∧ Acquired k s steps c c₂ c' ∧
      ∀ {β : Type} {later : Run β} {more : List Step} {r : Except Stop β} {w₃ : World},
        Performs later w' more r w₃ → c'.tree.isWithin s c'.tree.current = false →
        (∀ st ∈ more, st.Keeps k s) → (∀ st ∈ more, ¬ st.Reenters k s) →
        ∃ c₃, w₃.context? k = some c₃ ∧ Untouched k s a steps more w₃ c₃ := by
  obtain ⟨hsound₁, h₁, hk₁, htop₁, -, hs₁⟩ := Run.pushed hw hc hpush
  have ht := hacquire.trail
  obtain ⟨h₂, cs, hk₂, hs₂⟩ := ht.scope_of_keeps hsound₁ hk₁ hs₁ hkeeps
  obtain ⟨c₂, hc₂, rfl⟩ := Option.map_eq_some_iff.1 hk₂
  obtain ⟨w', hexec, hpop⟩ := Run.exec_createHandle hc₂ hpush hacquire.exec_eq
  have hstep := Run.step_of_change .pop rfl hpop (by simp)
  have hk' : w'.ledger.hold k = some (Change.pop.apply c₂.hold) := by
    have hpopped : (Op.change k .pop).step w₂.ledger = w₂.ledger.onHold k Change.pop.apply := rfl
    rw [hstep, hpopped, Ledger.hold_onHold, if_pos rfl, hk₂, Option.map_some]
  obtain ⟨c', hc', hhold⟩ := Option.map_eq_some_iff.1 hk'
  have hran : w'.ledger.ran = w₂.ledger.ran := by rw [hstep]; rfl
  have hmade : Acquired k s steps c c₂ c' :=
    .of_pop hsound₁ hk₁ htop₁ hs₁ ht hkeeps hc₂ hc' hstep
  refine ⟨c₂, w', c', hc₂, hexec, hc', hran, hmade, fun {β later more r w₃} hlater hout hkeeps' hback => ?_⟩
  have hsound' : w'.ledger.Sound := by rw [hstep]; exact (ht.sound hsound₁).step _
  have hk' : w'.ledger.hold k = some c'.hold := World.hold_of_context? hc'
  have hs' : c'.hold.tree.nodes.get? s = some (.scope (some c.tree.current) cs) := by
    rw [show c'.hold.tree = c'.tree from rfl, hmade.nodes]
    exact hs₂
  obtain ⟨h₃, cs₃, hk₃, hs₃⟩ := hlater.trail.scope_of_keeps hsound' hk' hs' hkeeps'
  obtain ⟨c₃, hc₃, rfl⟩ := Option.map_eq_some_iff.1 hk₃
  obtain ⟨f₃, hf₃⟩ := (hlater.trail.sound hsound').shows k _ hk₃
  obtain ⟨hout₃, helsewhere⟩ := hlater.trail.stays_outside hsound' hk' hk₃
    (Tree.isScope_iff.2 ⟨_, _, hs'⟩) hkeeps' (by rw [show c'.hold.tree = c'.tree from rfl, hout]; simp)
    hback
  obtain ⟨result, w₄, hdestroy, hresult⟩ :=
    Run.exec_destroyHandle hc₃ (Tree.isScope_iff.2 ⟨_, _, hs₃⟩) a
  refine ⟨c₃, hc₃, helsewhere, fun i => ?_, result, w₄, hdestroy, hresult.imp id ?_⟩
  · have hnone : ¬ Registered more k s i := by
      rintro ⟨pre, st, post, h, rfl, hadds, hin, -⟩
      exact helsewhere st (by simp) i h hadds hin
    rw [← hmade.content, show c₃.tree = c₃.hold.tree from rfl,
      hlater.trail.below_iff hsound' hk' hk₃, or_iff_left hnone]
    rfl
  · rintro ⟨hok, hstep'⟩
    exact ⟨hok, fun c₄ hc₄ => unwound_destroy hf₃ hs₃ hout₃ hc₃ hc₄ hstep'⟩

/-- The theorem above for a handle whose acquisition has ended in a scope beside it, and a
    release that was deferred since. -/
theorem createHandle_ends_strayed : ∃ c c₂ c' c₃ w₃ steps more,
    Acquired 0 ⟨0, 3, 0⟩ steps c c₂ c' ∧ c'.tree.current = c.tree.current ∧
      Untouched 0 ⟨0, 3, 0⟩ () steps more w₃ c₃ ∧ more.length = 2 := by
  obtain ⟨w, hw⟩ : ∃ w, w = (leftScope.exec .start).2 := ⟨_, rfl⟩
  obtain ⟨w₁, steps, w₂, hpush, hacquire, hkeeps⟩ := performs_strayed
  rw [← hw] at hpush
  have hcurrent : ((leftScope.exec .start).2.context? 0).map (·.tree.current) = some ⟨0, 0, 0⟩ := by
    decide +kernel
  rw [← hw] at hcurrent
  obtain ⟨c, hc, hcurrent⟩ := Option.map_eq_some_iff.1 hcurrent
  obtain ⟨c₂, w', c', hc₂, hexec, hc', -, hmade, hlater⟩ :=
    createHandle_ends (hw ▸ reachable_leftScope) hc hpush hacquire hkeeps
  have hw' : w' = ((Run.createHandle 0 strayed).exec w).2 := by rw [hexec]
  have hleft : (((Run.createHandle 0 strayed).exec w).2.context? 0).map (·.tree.current) =
      some ⟨0, 0, 0⟩ := by subst hw; decide +kernel
  rw [← hw', hc'] at hleft
  have hresumed : c'.tree.current = c.tree.current := (Option.some.inj hleft).trans hcurrent.symm
  have hreserve : ((Run.reserve 0).exec w').1 = .ok ⟨0, 6, 0⟩ := by subst hw hw'; decide +kernel
  obtain ⟨more, w₃, hdefer, hkeeps', hforth, hlength⟩ : ∃ more w₃,
      Performs (Run.defer 0 (.note "later" false)) w' more (.ok ()) w₃ ∧
        (∀ st ∈ more, st.Keeps 0 ⟨0, 3, 0⟩) ∧
        (∀ st ∈ more, st.op = .change 0 .reserve ∨
          st.op = .change 0 (.commit ⟨0, 6, 0⟩ (.note "later" false))) ∧ more.length = 2 := by
    have hcommit : (Run.commit 0 ⟨0, 6, 0⟩ (.note "later" false)).exec ((Run.reserve 0).exec w').2 =
        (.ok (), ((Run.defer 0 (.note "later" false)).exec w').2) := by subst hw hw'; rfl
    refine ⟨_, _, .bind (.of_ok (.change 0 .reserve) rfl hreserve)
      (.op (.change 0 (.commit ⟨0, 6, 0⟩ (.note "later" false))) rfl hcommit (by simp)), ?_,
      by simp, rfl⟩
    subst hw hw'
    decide +kernel
  have hback : ∀ st ∈ more, ¬ st.Reenters 0 ⟨0, 3, 0⟩ := by
    rintro st hst ⟨change, h, q, hop, -, hgoes, -⟩
    rcases hforth st hst with he | he <;> rw [he] at hop <;> cases hop <;> cases hgoes
  obtain ⟨c₃, -, huntouched⟩ := hlater hdefer (hmade.outside hresumed) hkeeps' hback
  exact ⟨c, c₂, c', c₃, w₃, steps, more, hmade, hresumed, huntouched, hlength⟩

/-- An acquisition that leaves another scope current. -/
def pushedInside : Run Unit := do
  let _ ← Run.pushScope 0
  Run.defer 0 (.note "acquired" false)

/-- A handle that was made and has its own scope current: what is deferred next is
    released with it. -/
theorem createHandle_stays_inside : ∃ w w' w'' c c' s, Reachable w ∧ w.context? 0 = some c ∧
    (Run.createHandle 0 pushedInside).exec w = (.ok ⟨s, ()⟩, w') ∧ w'.context? 0 = some c' ∧
      c'.tree.isScope c.tree.current = true ∧ c'.tree.isScope s = true ∧
      c'.tree.current ≠ c.tree.current ∧
      (do Run.defer 0 (.note "later" false); Run.destroyHandle 0 ⟨s, ()⟩).exec w' = (.ok true, w'') ∧
      w''.journal.ran.map (·.release) = [.note "acquired" false, .note "later" false] := by
  have hcreate : ((Run.createHandle 0 pushedInside).exec .single).1 = .ok ⟨⟨0, 1, 0⟩, ()⟩ := by
    decide +kernel
  obtain ⟨w', hw'⟩ := Run.exists_exec_eq hcreate
  have hlive : (((Run.createHandle 0 pushedInside).exec .single).2.context? 0).map (fun c' =>
      (c'.tree.isScope ⟨0, 0, 0⟩, c'.tree.isScope ⟨0, 1, 0⟩, c'.tree.current)) =
        some (true, true, ⟨0, 1, 0⟩) := by decide +kernel
  have hdestroy : ((do Run.defer 0 (.note "later" false); Run.destroyHandle 0 ⟨⟨0, 1, 0⟩, ()⟩ :
      Run Bool).exec ((Run.createHandle 0 pushedInside).exec .single).2).1 = .ok true := by
    decide +kernel
  have hran : ((do Run.defer 0 (.note "later" false); Run.destroyHandle 0 ⟨⟨0, 1, 0⟩, ()⟩ :
      Run Bool).exec ((Run.createHandle 0 pushedInside).exec .single).2).2.journal.ran.map
        (·.release) = [.note "acquired" false, .note "later" false] := by decide +kernel
  rw [hw'] at hlive hdestroy hran
  obtain ⟨w'', hw''⟩ := Run.exists_exec_eq hdestroy
  rw [hw''] at hran
  obtain ⟨c', hc', hc⟩ := Option.map_eq_some_iff.1 hlive
  simp only [Prod.mk.injEq] at hc
  obtain ⟨htop, hs, hcurrent⟩ := hc
  exact ⟨.single, w', w'', _, c', _, reachable_single, rfl, hw', hc', htop, hs,
    by rw [hcurrent]; decide, hw'', hran⟩

end ScopedResources
