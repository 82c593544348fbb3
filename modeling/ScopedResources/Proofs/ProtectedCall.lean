/-
  The end of a protected call.

  A call keeps the scope that was current and the frame around it while its body
  runs.  The body may have torn down either of them, or its own boundary, and
  their slots may be in use again by then; the call ends in the same way for all
  that.

  * `Run.exec_protect`: a call that has begun ends by one operation.
  * `Entered`: what is known when the body begins.
  * `Ended` is the exit law, and `protect_ends` proves it for arbitrary bodies.
-/
import ScopedResources.Proofs.Persistence

namespace ScopedResources

variable {α : Type} {w w₁ w₂ w' : World} {k : ContextId} {c c₂ c' : Context} {detail : Detail}
  {call : ProtectedCall} {body : Run α} {r : Except Stop α} {steps : List Step}
  {result : Except Stop (Except Report α)}

/-- What a call that has begun does after its body has ended. -/
theorem Run.exec_protect_leave (henter : (enterCall k detail).exec w = (.ok (.ok call), w₁))
    (hbody : body.exec w₁ = (r, w₂)) (hexit : (protect k detail body).exec w = (result, w'))
    (hresult : result ≠ .error .abort) :
    ∃ how, attempted r = .ok how ∧ (leaveCall k call how).exec w₂ = (result, w') := by
  have hprotect : (protect k detail body).exec w =
      (attempt body >>= fun how => leaveCall k call how).exec w₁ := exec_bind_ok henter
  rw [hprotect, exec_bind, exec_attempt, hbody] at hexit
  rcases hr : attempted r with e | how
  · rw [hr] at hexit
    cases hexit
    exact absurd (by rw [eq_abort_of_attempted hr]) hresult
  · rw [hr] at hexit
    exact ⟨how, rfl, hexit⟩

/-- A call that has begun ends by one operation after its body has ended. -/
theorem Run.exec_protect (henter : (enterCall k detail).exec w = (.ok (.ok call), w₁))
    (hbody : body.exec w₁ = (r, w₂)) (hexit : (protect k detail body).exec w = (result, w'))
    (hresult : result ≠ .error .abort) :
    ∃ how, attempted r = .ok how ∧
      w'.ledger = (Op.change k (.exit call (how.map fun _ => ()))).step w₂.ledger := by
  obtain ⟨how, hhow, hleave⟩ := exec_protect_leave henter hbody hexit hresult
  refine ⟨how, hhow, ?_⟩
  rcases moves_leaveCall k call how w₂ with h | h
  · rw [hleave] at h; exact absurd h hresult
  · rw [hleave] at h; exact h

/-- The call that has begun. -/
theorem Run.exec_enterCall_ok (hc : w.context? k = some c)
    (hexec : (enterCall k detail).exec w = (.ok (.ok call), w₁)) :
    c.tree.push.1 = some call.boundary ∧ call.resume = c.tree.current ∧ call.outer = c.frame := by
  have hcontext : w.context k = c := World.context_of_context? hc
  rcases exec_enterCall k detail w with habort | ⟨hcall, -⟩
  · rw [hexec] at habort
    cases habort
  rw [hexec, hcontext] at hcall
  rcases hp : c.tree.push.1 with _ | b
  · rw [hp] at hcall
    obtain ⟨report, h⟩ := hcall
    cases h
  · rw [hp] at hcall
    cases hcall
    exact ⟨rfl, rfl, rfl⟩

/-- What is known of a call when its body begins. -/
structure Entered (k : ContextId) (c : Context) (call : ProtectedCall) (l : Ledger) : Prop where
  resume : call.resume = c.tree.current
  outer : call.outer = c.frame
  hold : ∃ h, l.hold k = some h ∧ h.tree.top = c.tree.top ∧
    h.tree.nodes.get? call.boundary = some (.scope (some call.resume) []) ∧
    h.tree.isScope call.resume = true

theorem entered (hw : Reachable w) (hc : w.context? k = some c)
    (henter : (Run.enterCall k detail).exec w = (.ok (.ok call), w₁)) :
    Entered k c call w₁.ledger := by
  have hcontext : w.context k = c := World.context_of_context? hc
  have hk : w.ledger.hold k = some c.hold := World.hold_of_context? hc
  obtain ⟨f, hf⟩ := hw.sound.shows k _ hk
  have hf : c.tree.Shows f := hf
  rcases Run.exec_enterCall k detail w with h | ⟨hcall, hl⟩
  · rw [henter] at h; cases h
  rw [henter, hcontext] at hcall
  rw [henter] at hl
  rcases hp : c.tree.push with ⟨_ | b, t⟩
  · rw [hp] at hcall
    obtain ⟨report, h⟩ := hcall
    cases h
  · rw [hp] at hcall
    cases hcall
    obtain ⟨hshows, htop, -, -⟩ := hf.push hp
    have hb := Tree.get?_push hf.isScope_current hp
    refine ⟨rfl, rfl, ⟨t, some ⟨b, detail, c.depth + 1⟩⟩, ?_, htop, hb, ?_⟩
    · have hl : w₁.ledger.hold k = (w.ledger.onHold k (Change.apply (.enter detail))).hold k := by
        rw [hl]; rfl
      rw [hl, Ledger.hold_onHold, if_pos rfl, hk, Option.map_some, Change.apply,
        show c.hold.tree.push = (some b, t) from hp]
      rfl
    · exact hshows.mem_scopes_iff.1 (hshows.parent_mem hb)

/-! ## The exit law -/

/-- The teardown of a scope: exactly the nodes of its subtree are gone, the releases
    below it have run, newest first, and all else is as it was. -/
def Context.Unwound (c c' : Context) (boundary : Index) (ran ran' : List (Due Release)) : Prop :=
  ∃ f g new, c.tree.Shows f ∧ f.below? boundary = some g ∧
    (∀ i, c'.tree.nodes.get? i =
      if i ∈ g.indices ++ [boundary] then none
      else (c.tree.nodes.get? i).map (Node.without boundary)) ∧
    ran' = new.reverse ++ ran ∧ Ledger.InTurn g.due new

/-- How a protected call ends: `c` is its context before the call, `c₂` when the
    body has ended with `r`, and `c'` after the call. -/
structure Ended (k : ContextId) (call : ProtectedCall) (steps : List Step) (r : Except Stop α)
    (c c₂ c' : Context) (ran ran' : List (Due Release)) : Prop where
  depth : c'.depth = c.depth
  boundary : c'.boundary? = c.boundary?
  top : c'.tree.top = c.tree.top
  /-- The scope that was current is current again, if it is still alive. -/
  resumed : (∀ s ∈ steps, s.Keeps k c.tree.current) → c'.tree.current = c.tree.current
  /-- Otherwise the top scope is current. -/
  astray : (¬ ∀ s ∈ steps, s.Keeps k c.tree.current) → c'.tree.current = c.tree.top
  returned : ∀ a, r = .ok a → ran' = ran ∧ c'.tree.nodes = c₂.tree.nodes
  unwound : ∀ e, r = .error e → (∀ s ∈ steps, s.Keeps k call.boundary) →
    c₂.Unwound c' call.boundary ran ran'
  /-- Nothing is released if the body has torn the boundary down. -/
  spared : ∀ e, r = .error e → (¬ ∀ s ∈ steps, s.Keeps k call.boundary) →
    ran' = ran ∧ c'.tree.nodes = c₂.tree.nodes

/-- The way back and the teardown of a boundary that lies in the scope that is
    gone back to. -/
theorem Tree.destroy_enter {t : Tree Release} {f : Forest Release} (ht : t.Shows f)
    {b resume : Index} {cs : List Index} (hb : t.nodes.get? b = some (.scope (some resume) cs)) :
    ∃ g, f.below? b = some g ∧ Ledger.dueOf (t.enter resume) b = g.due ∧
      ((t.enter resume).destroy b).2.top = t.top ∧
      ((t.enter resume).destroy b).2.current = resume ∧
      ∀ i, ((t.enter resume).destroy b).2.nodes.get? i =
        if i ∈ g.indices ++ [b] then none else (t.nodes.get? i).map (Node.without b) := by
  obtain ⟨g, hg, -⟩ := ht.below?_of_scope hb
  have hresume := ht.parent_mem hb
  have hne : b ≠ t.top := by
    intro he
    obtain ⟨ds, htop⟩ := ht.get?_top
    rw [he, htop] at hb; cases hb
  have ht₁ := ht.enter resume
  have hcur : (t.enter resume).current = resume := by
    simp only [enter, ht.mem_scopes_iff.1 hresume, if_true]
  obtain ⟨t', hrun, -, htorn, hcurrent, hget⟩ := ht₁.destroy_scope hg hne
  refine ⟨g, hg, by rw [Ledger.dueOf, hrun]; rfl, by rw [hrun]; exact htorn.top, ?_,
    fun i => by rw [hrun]; exact hget i⟩
  rw [hrun]
  refine hcurrent.trans ?_
  rw [currentAfter, hcur, if_neg]
  -- the scope around the boundary is not below it
  obtain ⟨q, fq, pq, hq, -, -, -, hqg, hqb⟩ := ht.above hg hne
  rw [hb] at hq; cases hq
  rw [ht₁.isWithin_iff hresume]
  rintro (h | ⟨g', hg', hr⟩)
  · exact hqb h
  · rw [hg] at hg'; cases hg'
    exact hqg (Forest.mem_indices_of_mem_scopes hr)

/-- What the body has left of the scopes that a call goes by. -/
theorem Entered.after {l l' : Ledger} (hent : Entered k c call l) (hl : l.Sound)
    (ht : Trail l steps l') (hv : ∀ n, vacations steps k n < 2 ^ 32) {h : Hold}
    (hk : l'.hold k = some h) :
    h.tree.top = c.tree.top ∧
      (h.tree.isScope c.tree.current = true ↔ ∀ s ∈ steps, s.Keeps k c.tree.current) ∧
      (h.tree.isScope call.boundary = true ↔ ∀ s ∈ steps, s.Keeps k call.boundary) ∧
      (h.tree.isScope call.boundary = true →
        ∃ cs, h.tree.nodes.get? call.boundary = some (.scope (some c.tree.current) cs)) := by
  obtain ⟨x, hx, htop, hboundary, hresume⟩ := hent.hold
  rw [hent.resume] at hboundary hresume
  obtain ⟨p, cs, hresume⟩ := Tree.isScope_iff.1 hresume
  obtain ⟨hresumed, -⟩ := isScope_iff_keeps ht hl hx hk hresume (hv _)
  obtain ⟨hkept, hscope⟩ := isScope_iff_keeps ht hl hx hk hboundary (hv _)
  exact ⟨(top_trail ht hl hx hk).trans htop, hresumed, hkept, hscope⟩

/-- The frame of a call is left in whatever way its body ended. -/
theorem frame_exit (call : ProtectedCall) (how : Exit Unit) (h : Hold) :
    (Change.apply (.exit call how) h).frame = call.outer := by
  rcases how with _ | _ | _ <;> rfl

theorem current_enter (t : Tree Release) (s : Index) :
    (t.enter s).current = if t.isScope s = true then s else t.top := rfl

theorem Entered.ended (hent : Entered k c call w₁.ledger) (hl : w₁.ledger.Sound)
    (ht : Trail w₁.ledger steps w₂.ledger) (hv : ∀ n, vacations steps k n < 2 ^ 32)
    (hc₂ : w₂.context? k = some c₂) (hc' : w'.context? k = some c') {how : Exit α}
    (hhow : Run.attempted r = .ok how)
    (hstep : w'.ledger = (Op.change k (.exit call (how.map fun _ => ()))).step w₂.ledger) :
    Ended k call steps r c c₂ c' w₂.journal.ran w'.journal.ran := by
  obtain ⟨hold, new, hran, hturn⟩ := hold_change hc₂ hc' hstep
  have hk₂ : w₂.ledger.hold k = some c₂.hold := World.hold_of_context? hc₂
  obtain ⟨f, hf⟩ := (ht.sound hl).shows k _ hk₂
  have hf : c₂.tree.Shows f := hf
  obtain ⟨htop, hresumed, hkept, hscope⟩ := hent.after hl ht hv hk₂
  have htop : c₂.tree.top = c.tree.top := htop
  have hframe : c'.frame = c.frame :=
    ((congrArg Hold.frame hold).trans (frame_exit call _ _)).trans hent.outer
  have hdepth : c'.depth = c.depth := by rw [Context.depth, hframe, Context.depth]
  have hboundary : c'.boundary? = c.boundary? := by
    rw [Context.boundary?, hframe, Context.boundary?]
  -- where no scope is torn down, the call has only gone back
  have hstill : c'.tree = c₂.tree.enter call.resume →
      ((∀ s ∈ steps, s.Keeps k c.tree.current) → c'.tree.current = c.tree.current) ∧
      ((¬ ∀ s ∈ steps, s.Keeps k c.tree.current) → c'.tree.current = c.tree.top) := by
    intro htree
    rw [htree, hent.resume, current_enter, ← hresumed, htop]
    exact ⟨fun h => if_pos h, fun h => if_neg h⟩
  rcases r with e | a
  · have hfail : c'.tree = ((c₂.tree.enter call.resume).destroy call.boundary).2 ∧
        Ledger.InTurn (Ledger.dueOf (c₂.tree.enter call.resume) call.boundary) new := by
      rcases e with f | p | _ <;> cases hhow <;> exact ⟨congrArg Hold.tree hold, hturn⟩
    obtain ⟨htree, hturn⟩ := hfail
    by_cases hb : c₂.tree.isScope call.boundary = true
    · obtain ⟨cs, hcs⟩ := hscope hb
      have hcs : c₂.tree.nodes.get? call.boundary = some (.scope (some c.tree.current) cs) := hcs
      obtain ⟨g, hg, hdue, htop', hcurrent, hget⟩ := Tree.destroy_enter hf hcs
      rw [hent.resume] at htree hturn
      rw [hdue] at hturn
      rw [← htree] at htop' hcurrent hget
      have hlive := hresumed.1 (hf.mem_scopes_iff.1 (hf.parent_mem hcs))
      exact ⟨hdepth, hboundary, htop'.trans htop, fun _ => hcurrent, fun h => absurd hlive h,
        (fun a h => by cases h), fun _ _ _ => ⟨f, g, new, hf, hg, hget, hran, hturn⟩,
        fun _ _ h => absurd (hkept.1 hb) h⟩
    · have hnone : (c₂.tree.enter call.resume).destroy call.boundary = (none, _) :=
        Tree.destroy_of_not_scope (Bool.eq_false_of_not_eq_true hb)
      rw [hnone] at htree
      rw [Ledger.dueOf, hnone] at hturn
      cases hturn
      obtain ⟨hback, hastray⟩ := hstill htree
      exact ⟨hdepth, hboundary, (congrArg Tree.top htree).trans htop, hback, hastray,
        (fun a h => by cases h), fun _ _ h => absurd (hkept.2 h) hb,
        fun _ _ _ => ⟨hran, by rw [htree]; rfl⟩⟩
  · cases hhow
    have htree : c'.tree = c₂.tree.enter call.resume := congrArg Hold.tree hold
    cases (show Ledger.InTurn [] new from hturn)
    obtain ⟨hback, hastray⟩ := hstill htree
    exact ⟨hdepth, hboundary, (congrArg Tree.top htree).trans htop, hback, hastray,
      fun _ _ => ⟨hran, by rw [htree]; rfl⟩, (fun e h => by cases h),
      (fun e h => by cases h)⟩

/-- The exit law of a protected call, for an arbitrary body, as long as the body
    does not vacate a slot 2^32 times and the context is not dropped.  Whether
    the body ends by a failure or by a panic makes no difference to what is left. -/
theorem protect_ends (hw : Reachable w) (hc : w.context? k = some c)
    (henter : (Run.enterCall k detail).exec w = (.ok (.ok call), w₁))
    (hbody : Performs body w₁ steps r w₂) (hv : ∀ n, vacations steps k n < 2 ^ 32)
    (hc₂ : w₂.context? k = some c₂)
    (hexit : (Run.protect k detail body).exec w = (result, w')) (hresult : result ≠ .error .abort)
    (hc' : w'.context? k = some c') :
    Ended k call steps r c c₂ c' w₂.journal.ran w'.journal.ran ∧
      ∀ (e : Stop) (other : Run α) (e' : Stop) (result' : Except Stop (Except Report α)) (w'' : World),
        r = .error e → other.exec w₁ = (.error e', w₂) →
        (Run.protect k detail other).exec w = (result', w'') → result' ≠ .error .abort →
        w''.ledger = w'.ledger := by
  obtain ⟨how, hhow, hstep⟩ := Run.exec_protect henter hbody.exec_eq hexit hresult
  have hl₁ : w₁.ledger.Sound := by
    have h := Run.exec_enterCall k detail w
    rw [henter] at h
    rcases h with h | ⟨-, h⟩
    · cases h
    · exact h ▸ hw.sound.step _
  refine ⟨(entered hw hc henter).ended hl₁ hbody.trail hv hc₂ hc' hhow hstep, ?_⟩
  rintro e other e' result' w'' rfl hother hexit' hresult'
  obtain ⟨how', hhow', hstep'⟩ := Run.exec_protect henter hother hexit' hresult'
  rw [hstep, hstep']
  rcases e with f | p | _ <;> cases hhow <;> rcases e' with f' | p' | _ <;> cases hhow' <;> rfl

/-- A body that defers a release and then panics. -/
def deferAndPanic : Run Unit := do
  Run.defer 0 (.note "release" false)
  throw (.panic (.raised "stop"))

/-- A world in which a protected call has begun. -/
def World.inCall : World :=
  ((Run.enterCall 0 .code).exec (leftScope.exec .start).2).2

/-- The exit law where a body has panicked. -/
theorem protect_ends_deferAndPanic : ∃ c c₂ c' call steps ran ran',
    Ended 0 call steps (Except.error (.panic (.raised "stop")) : Except Stop Unit) c c₂ c' ran ran' ∧
      ran.length = 0 ∧ ran'.length = 1 := by
  have henter : (Run.enterCall 0 .code).exec (leftScope.exec .start).2 =
      (.ok (.ok ⟨⟨0, 0, 0⟩, ⟨0, 3, 0⟩, 1, none⟩), .inCall) := rfl
  have hreserve : (Run.reserve 0).exec .inCall = (.ok ⟨0, 4, 0⟩, ((Run.reserve 0).exec .inCall).2) :=
    rfl
  have hcommit : (Run.commit 0 ⟨0, 4, 0⟩ (.note "release" false)).exec
      ((Run.reserve 0).exec .inCall).2 = (.ok (), (deferAndPanic.exec .inCall).2) := rfl
  obtain ⟨steps, hbody, hlength⟩ : ∃ steps, Performs deferAndPanic .inCall steps
      (.error (.panic (.raised "stop"))) (deferAndPanic.exec .inCall).2 ∧ steps.length = 2 :=
    ⟨_, .bind (.bind (.op (.change 0 .reserve) rfl hreserve (by simp))
      (.op (.change 0 (.commit ⟨0, 4, 0⟩ (.note "release" false))) rfl hcommit (by simp)))
      (.aside rfl rfl), rfl⟩
  have hv : ∀ n, vacations steps 0 n < 2 ^ 32 := fun n =>
    Nat.lt_of_le_of_lt (vacations_le steps 0 n) (by rw [hlength]; decide)
  have hresult : ((Run.protect 0 .code deferAndPanic).exec (leftScope.exec .start).2).1 ≠
      .error .abort := by decide +kernel
  obtain ⟨c, hc⟩ := Option.isSome_iff_exists.1
    (show ((leftScope.exec .start).2.context? 0).isSome = true by decide +kernel)
  obtain ⟨c₂, hc₂⟩ := Option.isSome_iff_exists.1
    (show ((deferAndPanic.exec .inCall).2.context? 0).isSome = true by decide +kernel)
  have hran : ((Run.protect 0 .code deferAndPanic).exec
      (leftScope.exec .start).2).2.journal.ran.length = 1 := by decide +kernel
  obtain ⟨c', hc'⟩ := Option.isSome_iff_exists.1 (show (((Run.protect 0 .code deferAndPanic).exec
    (leftScope.exec .start).2).2.context? 0).isSome = true by decide +kernel)
  have h := protect_ends reachable_leftScope hc henter hbody hv hc₂ (Prod.eta _).symm hresult hc'
  exact ⟨c, c₂, c', _, steps, _, _, h.1, by decide +kernel, hran⟩

end ScopedResources
