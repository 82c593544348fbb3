/-
  A failing call is a transaction.

  Whatever the body of a call has done in a structured way before it failed or panicked,
  the teardown of the boundary undoes it: all nodes are what they were, and so are the
  frame, the name of the program and the levels of the debug locks, and what was opened is
  closed.

  * `Reverted` is what there is after such a call, and `protect_reverts` proves it, from
    the region below the boundary (`Begun.carried`) and its teardown
    (`Tree.Region.nodes_destroyed`).
  * `level_lowered`: a deferred action may drop another context, and with it the
    acquisitions that this one holds.
-/
import ScopedResources.Proofs.Revocable

namespace ScopedResources

variable {α : Type} {k : ContextId} {w w₁ w₂ w' : World} {c c₁ c₂ c' : Context} {detail : Detail}
  {call : ProtectedCall} {body : Run α} {e : Stop} {steps : List Step}
  {result : Except Stop (Except Report α)} {f g : Forest Release} {i : Index}

/-- What there is after a call that failed is what there was before it: `w` and `c` are the
    world and the context before the call, `w'` and `c'` after it, and `steps` is what the
    body has performed. -/
structure Reverted (k : ContextId) (w w' : World) (c c' : Context) (steps : List Step) : Prop where
  /-- All nodes: the children of scopes, the status of records, and what is in them. -/
  nodes : ∀ i, c'.tree.nodes.get? i = c.tree.nodes.get? i
  top : c'.tree.top = c.tree.top
  current : c'.tree.current = c.tree.current
  frame : c'.frame = c.frame
  program : c'.program = c.program
  live : c'.live = c.live
  /-- What is open was open before, and is no descriptor that the body was to close. The
      file of a debug lock stays open once the lock has needed it. -/
  opened : ∀ fd, w'.host.isOpen fd = true →
    (w.host.isOpen fd = true ∧ ∀ d ∈ given steps, d.release ≠ .close fd) ∨ w.NewFile w' fd
  /-- A debug lock is at its level, unless some other context that had acquired it has
      been dropped. -/
  level : ∀ (lock : LockId) (s : DebugLock), w.locks[lock]? = some s → w.Spares k w' lock →
    ∃ s', w'.locks[lock]? = some s' ∧ s'.level = s.level

/-- Trees with the same nodes have the same size. -/
theorem Tree.Shows.size_eq {t t' : Tree Release} {f f' : Forest Release} (h : t.Shows f)
    (h' : t'.Shows f') (hn : ∀ i, t'.nodes.get? i = t.nodes.get? i) : t'.size = t.size := by
  have hperm : f'.indices.Perm f.indices := (List.perm_ext_iff_of_nodup h'.nodup h.nodup).2 fun i => by
    rw [h'.mem_iff, h.mem_iff, hn]
  rw [h.size, h'.size, hperm.length_eq]

/-- A scope that is pushed and taken out again leaves all nodes as they were. -/
theorem Tree.Shows.without_pushed {t u : Tree Release} {s : Index} (h : t.Shows f)
    (hp : t.push = (some s, u)) (hi : i ≠ s) :
    (u.nodes.get? i).map (Node.without s) = t.nodes.get? i := by
  obtain ⟨p, cs, hcur⟩ := isScope_iff.1 h.isScope_current
  obtain ⟨hshows, -⟩ := h.push hp
  rcases ha : t.addChild (.scope (some t.current) []) with ⟨_ | j, v⟩
  · simp [Tree.push, ha] at hp
  simp only [Tree.push, ha, Prod.mk.injEq, Option.some.injEq] at hp
  obtain ⟨rfl, rfl⟩ := hp
  have hcur' := get?_addChild_current hcur ha
  obtain ⟨x, hx, hroots⟩ := hshows.below?_of_scope hcur'
  rw [← hroots] at hcur'
  rw [hshows.map_without hx hcur' (by rw [hroots]; exact List.mem_cons_self ..), hroots,
    List.erase_cons_head]
  split
  · rename_i hic
    rw [hic, hcur]
  · rename_i hic
    have hother : v.nodes.get? i = t.nodes.get? i := get?_addChild_ne h.isScope_current ha hi hic
    exact hother

/-- The teardown of a pushed scope, seen from a region that has kept what is old, leaves
    all nodes as they were. -/
theorem Tree.Region.nodes_destroyed {t u v : Tree Release} {b : Index} {x : Forest Release}
    (h : t.Shows x) (hp : t.push = (some b, u))
    (hR : v.Region (fun i => (t.nodes.get? i).isSome) t.current b f g)
    (hkept : ∀ i, (t.nodes.get? i).isSome → v.nodes.get? i = u.nodes.get? i) (i : Index) :
    ((v.enter t.current).destroy b).2.nodes.get? i = t.nodes.get? i := by
  obtain ⟨y, hy, -, -, -, hget⟩ := destroy_enter hR.shows hR.root
  have hyg : y = g := Option.some.inj (hy.symm.trans hR.below)
  subst hyg
  rw [hget]
  by_cases hold : (t.nodes.get? i).isSome
  · have hout : i ∉ y.indices ++ [b] := hR.notMem hold
    rw [if_neg hout, hkept i hold, h.without_pushed hp]
    rintro rfl
    exact hout (List.mem_append_right _ (List.mem_singleton_self _))
  · rw [Option.not_isSome_iff_eq_none.1 hold]
    split
    · rfl
    · rename_i hout
      have hgone : (v.nodes.get? i).isSome ≠ true := fun hi =>
        hold ((hR.outside i).2 ⟨hR.shows.mem_iff.2 hi, hout⟩)
      rw [Option.not_isSome_iff_eq_none.1 hgone]
      rfl

/-- The teardown of a region runs what is due below it, and ends in the scope around it. -/
theorem Tree.Region.destroyed {v : Tree Release} {old : Index → Prop} {q b : Index}
    (hR : v.Region old q b f g) :
    Ledger.dueOf (v.enter q) b = g.due ∧ ((v.enter q).destroy b).2.current = q := by
  obtain ⟨z, hz, hdue, -, hcurrent, -⟩ := Tree.destroy_enter hR.shows hR.root
  cases hz.symm.trans hR.below
  exact ⟨hdue, hcurrent⟩

/-! ## How a call begins and ends -/

/-- What there is when the body of a call begins. -/
structure Begun (k : ContextId) (detail : Detail) (w : World) (c : Context) (call : ProtectedCall)
    (w₁ : World) (c₁ : Context) : Prop where
  sound : w.ledger.Sound
  context : w₁.context? k = some c₁
  push : c.tree.push = (some call.boundary, c₁.tree)
  resume : call.resume = c.tree.current
  outer : call.outer = c.frame
  still : w.Still w₁
  step : w₁.ledger = (Op.change k (.enter detail)).step w.ledger

theorem begun (hl : w.ledger.Sound) (hc : w.context? k = some c)
    (henter : (Run.enterCall k detail).exec w = (.ok (.ok call), w₁)) :
    ∃ c₁, Begun k detail w c call w₁ c₁ := by
  obtain ⟨hpush, hresume, houter⟩ := Run.exec_enterCall_ok hc henter
  have hready : w.Ready k := ⟨hl, by rw [hc]; rfl⟩
  obtain ⟨c₁, hc₁⟩ := Option.isSome_iff_exists.1
    (hready.change (Run.calm_enterCall k detail) (.enter detail) rfl henter (by simp)).alive
  have hstill := Run.calm_enterCall k detail w
  rw [henter] at hstill
  have hstep := Run.step_of_change (.enter detail) rfl henter (by simp)
  obtain ⟨hhold, -⟩ := hold_change hc hc₁ hstep
  have hbegins : (Change.enter detail).Begins := trivial
  have htree : c₁.tree = c.tree.push.2 := (congrArg Hold.tree hhold).trans (hbegins.tree c.hold)
  exact ⟨c₁, hl, hc₁, Prod.ext hpush htree.symm, hresume, houter, hstill, hstep⟩

/-- However the body has failed, the end of the call tears its boundary down. -/
theorem exit_failed (call : ProtectedCall) {how : Exit α}
    (h : Run.attempted (.error e : Except Stop α) = .ok how) (x : Hold) :
    Change.apply (.exit call (how.map fun _ => ())) x =
        ⟨((x.tree.enter call.resume).destroy call.boundary).2, call.outer⟩ ∧
      Change.due (.exit call (how.map fun _ => ())) x =
        Ledger.dueOf (x.tree.enter call.resume) call.boundary := by
  rcases e with f | p | _ <;> cases h <;> exact ⟨rfl, rfl⟩

/-- A body that is about to run has nothing to undo. -/
theorem Begun.revocable (h : Begun k detail w c call w₁ c₁) (old : Index → Prop) :
    Revocable k w₁ c₁ old [] [] w₁ c₁ [] where
  sound := by rw [h.step]; exact h.sound.step _
  trail := .nil _
  own i hi := by cases hi
  kept _ _ := rfl
  kind r hr := by cases hr
  pending := pending_refl k w₁

/-- Where nothing is left to be undone after a call, there is nothing since before it. -/
theorem Begun.pending (h : Begun k detail w c call w₁ c₁) (hp : Pending k w₁ steps [] w' []) :
    Pending k w steps [] w' [] := by
  have hothers : ∀ j, j ≠ k → w₁.ledger.hold j = w.ledger.hold j := by
    intro j hj
    rw [h.step]
    show (w.ledger.onHold k _).hold j = _
    rw [Ledger.hold_onHold, if_neg hj]
  refine ⟨fun j hj x hx => (hothers j hj).symm.trans (hp.others j hj x hx), ?_, fun fd hfd => ?_, ?_⟩
  · intro lock s hs
    exact hp.files lock s (by rw [h.still.locks]; exact hs)
  · rcases hp.opened fd hfd with ⟨hopen, hsteps⟩ | hdue | hheld | ⟨lock, s', n, hs', hfile, hfd, hnew⟩
    · rw [World.isOpen_congr h.still.descriptors] at hopen
      exact .inl ⟨hopen, hsteps⟩
    · exact .inr (.inl hdue)
    · exact .inr (.inr (.inl hheld))
    · rw [h.still.locks] at hnew
      exact .inr (.inr (.inr ⟨lock, s', n, hs', hfile, hfd, hnew⟩))
  · intro lock s₀ s hs₀ hs hspares
    refine hp.level lock s₀ s (by rw [h.still.locks]; exact hs₀) hs fun j hj x i hx hi => ?_
    rw [hothers j hj] at hx
    exact hspares j hj x i hx hi

/-- A body that is structured wherever it starts is so in a call. -/
theorem Begun.structured (h : Begun k detail w c call w₁ c₁) (hbody : Run.Orderly k body)
    (hexec : body.exec w₁ = (.error e, w₂)) (he : e ≠ .abort) (hk : (w₂.context? k).isSome) :
    ∃ steps, Structured k [] [] body w₁ steps (.error e) w₂ [] := by
  have hready : w₁.Ready k := ⟨by rw [h.step]; exact h.sound.step _, by rw [h.context]; rfl⟩
  exact hbody.admits [] [] w₁ _ w₂ hready hexec (fun h => he (by cases h; rfl)) hk

/-! ## A call that fails -/

/-- A body that has failed in a structured way, seen from the region below the boundary. -/
theorem Begun.carried (h : Begun k detail w c call w₁ c₁) (hc : w.context? k = some c)
    (hx : c.tree.Shows f) (hbody : Structured k [] [] body w₁ steps (.error e) w₂ [])
    (hc₂ : w₂.context? k = some c₂) :
    ∃ f' g, c₂.tree.Region (fun i => (c.tree.nodes.get? i).isSome) c.tree.current call.boundary f' g ∧
      Revocable k w₁ c₁ (fun i => (c.tree.nodes.get? i).isSome) steps [] w₂ c₂ g.due ∧
      (restored g.due).getLastD c₂.program = c.program := by
  obtain ⟨y, hin⟩ := hx.region_push h.push
  obtain ⟨f', g, hR, hrev⟩ := hbody.carries c₁ c₂ _ _ _ _ _ h.context hc₂ hin
  obtain ⟨hrevocable, hname⟩ := hrev w₁ c₁ (h.revocable _)
  have hprogram := h.still.program k
  rw [h.context, hc] at hprogram
  exact ⟨f', g, hR, hrevocable, hname.trans (Option.some.inj hprogram)⟩

/-- The end of a call that failed leaves the nodes that there were before the call, and
    runs what is due below the boundary. -/
theorem Begun.unwound {x : Forest Release} (h : Begun k detail w c call w₁ c₁) (hx : c.tree.Shows x)
    (hR : c₂.tree.Region (fun i => (c.tree.nodes.get? i).isSome) c.tree.current call.boundary f g)
    (hkept : ∀ i, (c.tree.nodes.get? i).isSome → c₂.tree.nodes.get? i = c₁.tree.nodes.get? i)
    {how : Exit α} (hhow : Run.attempted (.error e : Except Stop α) = .ok how)
    (hhold : c'.hold = Change.apply (.exit call (how.map fun _ => ())) c₂.hold) :
    (∀ i, c'.tree.nodes.get? i = c.tree.nodes.get? i) ∧ c'.tree.current = c.tree.current ∧
      c'.frame = c.frame ∧ Change.due (.exit call (how.map fun _ => ())) c₂.hold = g.due := by
  obtain ⟨happly, hdue⟩ := exit_failed call hhow c₂.hold
  rw [happly, h.resume] at hhold
  rw [h.resume] at hdue
  have htree : c'.tree = ((c₂.tree.enter c.tree.current).destroy call.boundary).2 :=
    congrArg Hold.tree hhold
  obtain ⟨hbelow, hcurrent⟩ := hR.destroyed
  refine ⟨fun i => ?_, ?_, (congrArg Hold.frame hhold).trans h.outer, hdue.trans hbelow⟩
  · rw [htree]
    exact Tree.Region.nodes_destroyed hx h.push hR hkept i
  · rw [htree]
    exact hcurrent

/-- A failing call is undone: whatever its body has done in a structured way, what is
    left is what was there before the call. -/
theorem protect_reverts (hw : Reachable w) (hc : w.context? k = some c)
    (henter : (Run.enterCall k detail).exec w = (.ok (.ok call), w₁))
    (hbody : Structured k [] [] body w₁ steps (.error e) w₂ [])
    (hexit : (Run.protect k detail body).exec w = (result, w')) (hresult : result ≠ .error .abort)
    (hc' : w'.context? k = some c') : Reverted k w w' c c' steps := by
  obtain ⟨how, hhow, hleave⟩ := Run.exec_protect_leave henter hbody.performs.exec_eq hexit hresult
  obtain ⟨c₁, hbegun⟩ := begun hw.sound hc henter
  obtain ⟨res, hlast, hres⟩ := Run.exec_change (.exit call (how.map fun _ => ()))
    (Run.discard_leaveCall k call how) hleave hresult
  have hstep := Change.ledger_step _ hlast hres
  -- the steps of the whole call
  have htrail := ((Trail.one hbegun.step).append hbody.trail).append (.one hstep)
  have hk₁ : k < w₁.ledger.count := Run.lt_size_of_context? hbegun.context
  obtain ⟨c₂, hc₂⟩ := (Trail.one hstep).context? (Nat.lt_of_lt_of_le hk₁ hbody.trail.count_le) hc'
  -- the region below the boundary, and its teardown
  obtain ⟨x, hx⟩ : ∃ x, c.tree.Shows x := hw.sound.shows k _ (World.hold_of_context? hc)
  obtain ⟨f, g, hR, hrevocable, hname⟩ := hbegun.carried hc hx hbody hc₂
  obtain ⟨hhold, -⟩ := hold_change hc₂ hc' hstep
  obtain ⟨hnodes, hcurrent, hframe, hdue⟩ := hbegun.unwound hx hR hrevocable.kept hhow hhold
  have hprogram : (restored []).getLastD c'.program = (restored g.due).getLastD c₂.program :=
    name_step hc₂ hc' hlast hres (by rw [hdue]; exact (List.append_nil _).symm)
  -- nothing is left to be undone
  have hcounts : Counts g.due [] (Change.given (.exit call (how.map fun _ => ())))
      (Change.due (.exit call (how.map fun _ => ())) c₂.hold) := fun r _ => by rw [hdue]; rfl
  have hpending := hbegun.pending <| hrevocable.pending.step
    (Change.advances (hrevocable.trail.sound hrevocable.sound) hc₂ hc' hlast hres) hcounts
    (.inl ⟨rfl, by simp [Change.given]⟩)
  have hgiven : given (steps ++ [⟨w₂, .change k (.exit call (how.map fun _ => ())), w'⟩]) = given steps := by
    rw [given_append]
    exact List.append_nil _
  refine ⟨hnodes, ?_, hcurrent, hframe, hprogram.trans hname, ?_, fun fd hfd => ?_,
    fun lock s hs hspares => ?_⟩
  · exact top_trail htrail hw.sound (World.hold_of_context? hc) (World.hold_of_context? hc')
  · obtain ⟨u, hu⟩ : ∃ u, c'.tree.Shows u :=
      (htrail.sound hw.sound).shows k _ (World.hold_of_context? hc')
    rw [Context.live, Context.live, Tree.live, Tree.live, hx.size_eq hu hnodes]
  · have hopened := hpending.opened fd hfd
    rw [hgiven] at hopened
    simpa using hopened
  · obtain ⟨s', hs', -⟩ := hpending.files lock s hs
    exact ⟨s', hs', (hpending.level lock s s' hs hs' hspares).trans (UInt32.add_zero _)⟩

/-- A body that allocates and fails. -/
def allocAndFail : Run Index := do
  let _ ← Run.alloc 0 8
  Run.throwing (Run.fail 0 22 (.literal "stop"))

/-- A body that replaces the name of the program, opens a pipe, goes on after a call that
    fails, and panics. -/
def renameAndPanic : Run Unit := do
  Run.setProgramName 0 "renamed"
  let _ ← Run.openPipe 0
  let _ ← Run.protect 0 .code allocAndFail
  throw (.panic (.raised "stop"))

theorem orderly_renameAndPanic : Run.Orderly 0 renameAndPanic := by
  have hinner : Run.Orderly 0 allocAndFail := (Run.orderly_alloc 8).bind fun _ =>
    Run.orderly_throwing (Run.calm_fail _ _ _) (Run.aside_fail _ _ _)
  exact (Run.orderly_setProgramName _).bind fun _ => Run.orderly_openPipe.bind fun _ =>
    (Run.orderly_protect .code hinner).bind fun _ => Run.orderly_throw _

/-- A call that is undone where its body has panicked: the name is the one from before,
    and the ends of the pipe are closed. -/
theorem protect_reverts_renameAndPanic : ∃ w' c c' steps,
    Reverted 0 (leftScope.exec .start).2 w' c c' steps ∧ c.program = "example" ∧ c.live = 2 ∧
      w'.host.isOpen 3 = false := by
  obtain ⟨c, hc⟩ := Option.isSome_iff_exists.1
    (show ((leftScope.exec .start).2.context? 0).isSome = true by decide +kernel)
  have hprogram : ((leftScope.exec .start).2.context? 0).map (·.program) = some "example" := by
    decide +kernel
  have hlive : ((leftScope.exec .start).2.context? 0).map (·.live) = some 2 := by decide +kernel
  rw [hc] at hprogram hlive
  have henter : (Run.enterCall 0 .code).exec (leftScope.exec .start).2 =
      (.ok (.ok ⟨⟨0, 0, 0⟩, ⟨0, 3, 0⟩, 1, none⟩), .inCall) := rfl
  obtain ⟨c₁, hbegun⟩ := begun reachable_leftScope.sound hc henter
  have hpanic : (renameAndPanic.exec .inCall).1 = .error (.panic (.raised "stop")) := by
    decide +kernel
  obtain ⟨steps, hsteps⟩ := hbegun.structured orderly_renameAndPanic
    (Prod.ext hpanic rfl) (by simp) (by decide +kernel)
  have hresult : ((Run.protect 0 .code renameAndPanic).exec (leftScope.exec .start).2).1 ≠
      .error .abort := by decide +kernel
  obtain ⟨c', hc'⟩ := Option.isSome_iff_exists.1 (show (((Run.protect 0 .code renameAndPanic).exec
    (leftScope.exec .start).2).2.context? 0).isSome = true by decide +kernel)
  exact ⟨_, c, c', steps, protect_reverts reachable_leftScope hc henter hsteps (Prod.eta _).symm hresult hc',
    Option.some.inj hprogram, Option.some.inj hlive, by decide +kernel⟩

/-! ## Locks that other contexts hold -/

/-- Two contexts, of which the second one has acquired a debug lock. -/
def lockedElsewhere : Run Unit := do
  let _ ← Run.newContext "example"
  let other ← Run.newContext "other"
  let lock ← Run.newLock (Path.ofText "/lock")
  Run.acquireLock other lock

theorem reachable_lockedElsewhere : Reachable (lockedElsewhere.exec .start).2 := by
  have hlock : Composed (Run.newLock (Path.ofText "/lock")) :=
    Run.Aside.composed (Run.aside_modifyGet fun _ => rfl)
  have hcomposed : Composed lockedElsewhere :=
    Run.composed_bind (Run.composed_newContext _) fun _ =>
      Run.composed_bind (Run.composed_newContext _) fun other =>
        Run.composed_bind hlock fun lock => Run.composed_acquireLock other lock
  have hexec : lockedElsewhere.exec .start = (.ok (), (lockedElsewhere.exec .start).2) :=
    Prod.ext (by decide +kernel) rfl
  obtain ⟨steps, hsteps⟩ := hcomposed _ _ _ hexec (by simp)
  exact ⟨_, _, _, _, _, steps, _, hsteps, by simp⟩

/-- A body that defers the drop of the second context, and fails. -/
def dropOther : Run Unit := do
  Run.defer 0 (.dropContext "A" 1)
  Run.throwing (Run.fail 0 22 (.literal "stop"))

theorem orderly_dropOther : Run.Orderly 0 dropOther := by
  have hplain : (Release.dropContext "A" 1).Plain := trivial
  exact (Run.orderly_defer hplain).bind fun _ =>
    Run.orderly_throwing (Run.calm_fail _ _ _) (Run.aside_fail _ _ _)

/-- The level of a debug lock is not what it was where a deferred action has dropped a
    context that had acquired the lock. -/
theorem level_lowered : ∃ (call : ProtectedCall) (w₁ w₂ w' : World) (steps : List Step) (e : Stop)
    (report : Report), Reachable (lockedElsewhere.exec .start).2 ∧
      (Run.enterCall 0 .code).exec (lockedElsewhere.exec .start).2 = (.ok (.ok call), w₁) ∧
      Structured 0 [] [] dropOther w₁ steps (.error e) w₂ [] ∧
      (Run.protect 0 .code dropOther).exec (lockedElsewhere.exec .start).2 = (.ok (.error report), w') ∧
      (w'.context? 0).isSome ∧ ((lockedElsewhere.exec .start).2.locks[0]?).map (·.level) = some 1 ∧
      (w'.locks[0]?).map (·.level) = some 0 := by
  obtain ⟨c, hc⟩ := Option.isSome_iff_exists.1
    (show ((lockedElsewhere.exec .start).2.context? 0).isSome = true by decide +kernel)
  obtain ⟨w₁, hw₁⟩ : ∃ w₁, w₁ = ((Run.enterCall 0 .code).exec (lockedElsewhere.exec .start).2).2 :=
    ⟨_, rfl⟩
  have hcall : ((Run.enterCall 0 .code).exec (lockedElsewhere.exec .start).2).1 =
      .ok (.ok ⟨⟨0, 0, 0⟩, ⟨0, 1, 0⟩, 1, none⟩) := by decide +kernel
  have henter : (Run.enterCall 0 .code).exec (lockedElsewhere.exec .start).2 =
      (.ok (.ok ⟨⟨0, 0, 0⟩, ⟨0, 1, 0⟩, 1, none⟩), w₁) := Prod.ext hcall hw₁.symm
  obtain ⟨c₁, hbegun⟩ := begun reachable_lockedElsewhere.sound hc henter
  obtain ⟨w₂, hw₂⟩ : ∃ w₂, w₂ = (dropOther.exec w₁).2 := ⟨_, rfl⟩
  have hfailed : (dropOther.exec w₁).1 = .error (.failure ⟨22, none, none, 1⟩) := by
    rw [hw₁]
    decide +kernel
  obtain ⟨steps, hsteps⟩ := hbegun.structured orderly_dropOther
    (Prod.ext hfailed hw₂.symm) (by simp) (by rw [hw₂, hw₁]; decide +kernel)
  have hreport : ((Run.protect 0 .code dropOther).exec (lockedElsewhere.exec .start).2).1 =
      .ok (.error ⟨22, none, none⟩) := by decide +kernel
  refine ⟨_, w₁, w₂, _, steps, _, ⟨22, none, none⟩, reachable_lockedElsewhere, henter, hsteps,
    Prod.ext hreport rfl, ?_, ?_, ?_⟩ <;> decide +kernel

end ScopedResources
