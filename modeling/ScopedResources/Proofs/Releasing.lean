/-
  What holds while releases run.

  An operation runs what it makes due, one release after the other.  A release may drop a
  context, whose own releases run then, and the process may end in the middle.  What is
  known in advance are the releases that will have run if it does not.

  * `World.Quiet`: nothing has changed but contexts and what was logged; `Run.Quiet` are
    the runs that leave all else alone.
  * `Sustains`: a property of worlds that such runs keep, and each release that has its
    turn.
  * `Sustains.op`: an operation keeps it then, however it ends.
-/
import ScopedResources.Proofs.Undoing

namespace ScopedResources

variable {α β : Type} {w w' w'' : World} {k : ContextId}

/-- Nothing has changed but contexts, messages and the log; no descriptor was found
    closed. -/
structure World.Quiet (w w' : World) : Prop where
  locks : w'.locks = w.locks
  host : w'.host = { w.host with error := w'.host.error }
  ran : w'.journal.ran = w.journal.ran
  once : ∀ name, .closedTwice name ∈ w'.journal.events → .closedTwice name ∈ w.journal.events

theorem World.Quiet.refl (w : World) : w.Quiet w :=
  ⟨rfl, rfl, rfl, fun _ h => h⟩

theorem World.Quiet.trans (h : w.Quiet w') (h' : w'.Quiet w'') : w.Quiet w'' where
  locks := h'.locks.trans h.locks
  host := by rw [h'.host, h.host]
  ran := h'.ran.trans h.ran
  once name hn := h.once name (h'.once name hn)

theorem World.host_record (w : World) (e : Event) :
    (w.record e).host = { w.host with error := (w.record e).host.error } := by
  unfold World.record
  dsimp only
  split
  · split
    · split <;> rfl
    · rfl
  · rfl

theorem World.events_record (w : World) (e : Event) :
    (w.record e).journal.events = e :: w.journal.events := by
  unfold World.record
  dsimp only
  split
  · split
    · split <;> rfl
    · rfl
  · rfl

theorem World.quiet_record (w : World) {e : Event} (he : ∀ name, e ≠ .closedTwice name) :
    w.Quiet (w.record e) where
  locks := (Run.still_record w e).locks
  host := w.host_record e
  ran := (Run.still_record w e).ran
  once name hn := by
    rw [w.events_record e] at hn
    exact (List.mem_cons.1 hn).resolve_left fun h => he name h.symm

theorem World.quiet_onContext (w : World) (k : ContextId) (f : Context → α × Context) :
    w.Quiet (w.onContext k f).2 := by
  unfold World.onContext
  split <;> exact ⟨rfl, rfl, rfl, fun _ h => h⟩

/-- Notes a release as run. -/
def World.note (w : World) (d : Due Release) : World :=
  { w with journal.ran := d :: w.journal.ran }

@[simp] theorem World.ran_note (w : World) (d : Due Release) :
    (w.note d).journal.ran = d :: w.journal.ran := rfl

namespace Run

/-! ## Quiet runs -/

/-- A run that changes nothing but contexts and what was logged. -/
def Quiet (run : Run α) : Prop :=
  ∀ w : World, w.Quiet (run.exec w).2

theorem quiet_pure (a : α) : Quiet (pure a : Run α) := fun w => .refl w

theorem quiet_throw (e : Stop) : Quiet (throw e : Run α) := fun w => .refl w

theorem Quiet.bind {x : Run α} {f : α → Run β} (hx : Quiet x) (hf : ∀ a, Quiet (f a)) :
    Quiet (x >>= f) := by
  intro w
  have h := hx w
  rw [exec_bind]
  rcases hr : x.exec w with ⟨_ | a, w'⟩
  · rw [hr] at h; exact h
  · rw [hr] at h; exact h.trans (hf a w')

theorem Quiet.discard {x : Run α} (hx : Quiet x) : Quiet (discard x) := by
  intro w
  rw [exec_discard]
  exact hx w

theorem quiet_view (k : ContextId) (f : Context → α) : Quiet (view k f) := fun w => .refl w

theorem quiet_describe (fd : Int) : Quiet (describe fd) := fun w => .refl w

theorem quiet_log {e : Event} (he : ∀ name, e ≠ .closedTwice name) : Quiet (log e) :=
  fun w => w.quiet_record he

theorem quiet_onContext (k : ContextId) (f : Context → α × Context) : Quiet (onContext k f) :=
  fun w => w.quiet_onContext k f

theorem quiet_onTree (k : ContextId) (f : Tree Release → α × Tree Release) : Quiet (onTree k f) :=
  quiet_onContext k _

theorem quiet_takeContext (k : ContextId) : Quiet (takeContext k) :=
  fun _ => ⟨rfl, rfl, rfl, fun _ h => h⟩

theorem quiet_newContext (program : String) : Quiet (newContext program) :=
  fun _ => ⟨rfl, rfl, rfl, fun _ h => h⟩

/-! ### Failures -/

theorem quiet_render (f : Format) : Quiet (render f) := by
  cases f with
  | literal text => exact quiet_pure _
  | rendered written refused => exact fun w => ⟨rfl, rfl, rfl, fun _ h => h⟩

theorem quiet_activeFrame (k : ContextId) (code : Int) (f : Format) :
    Quiet (activeFrame k code f) :=
  (quiet_view k _).bind fun frame => by
    split
    · exact quiet_pure _
    · exact (quiet_log (by simp)).bind fun _ => quiet_throw _

theorem quiet_fail (k : ContextId) (code : Int) (f : Format) : Quiet (fail k code f) :=
  (quiet_activeFrame k code f).bind fun frame => by
    split
    · exact (quiet_render f).bind fun _ => (quiet_view k _).bind fun _ =>
        (quiet_log (by simp)).bind fun _ => quiet_pure _
    · exact (quiet_log (by simp)).bind fun _ => quiet_pure _

theorem quiet_failNoMemory (k : ContextId) : Quiet (failNoMemory k) :=
  (quiet_activeFrame k _ _).bind fun frame => by
    split
    · exact (quiet_view k _).bind fun _ => quiet_pure _
    · exact quiet_pure _

theorem quiet_throwing {f : Run Failure} (hf : Quiet f) : Quiet (throwing f : Run α) :=
  hf.bind fun _ => quiet_throw _

theorem quiet_granted {what : Run String} (hw : Quiet what) (k : ContextId)
    (result : Except Errno α) : Quiet (granted k what result) := by
  unfold granted
  split
  · exact quiet_pure _
  · exact hw.bind fun _ => quiet_throwing (quiet_fail _ _ _)

/-! ### Changes that release nothing -/

theorem quiet_pushScope? (k : ContextId) : Quiet (pushScope? k) := by
  refine (quiet_view k _).bind fun parent => (quiet_onTree k _).bind fun pushed => ?_
  split
  · exact (quiet_log (by simp)).bind fun _ => quiet_pure _
  · exact quiet_pure _

theorem quiet_pushScope (k : ContextId) : Quiet (pushScope k) := by
  refine (quiet_pushScope? k).bind fun pushed => ?_
  split
  · exact quiet_pure _
  · exact quiet_throwing (quiet_failNoMemory k)

theorem quiet_popScope (k : ContextId) : Quiet (popScope k) := by
  refine (quiet_view k _).bind fun scope => (quiet_view k _).bind fun parent => ?_
  split
  · exact (quiet_onTree k _).bind fun _ => (quiet_log (by simp)).bind fun _ => quiet_pure _
  · exact quiet_pure _

theorem quiet_reserve (k : ContextId) : Quiet (reserve k) := by
  refine (quiet_onTree k _).bind fun record => ?_
  split
  · exact quiet_pure _
  · exact quiet_throwing (quiet_failNoMemory k)

theorem quiet_setByte (k : ContextId) (record : Index) (position : Nat) (byte : UInt8) :
    Quiet (setByte k record position byte) := by
  refine (quiet_view k _).bind fun block => ?_
  split
  · exact (quiet_onTree k _).bind fun _ => quiet_pure _
  · exact quiet_pure _

theorem quiet_enterCall (k : ContextId) (detail : Detail) : Quiet (enterCall k detail) := by
  refine (quiet_view k _).bind fun resume => (quiet_pushScope? k).bind fun pushed => ?_
  split
  · exact (quiet_failNoMemory k).bind fun _ => quiet_pure _
  · exact (quiet_view k _).bind fun outer => (quiet_view k _).bind fun depth =>
      (quiet_onContext k _).bind fun _ => (quiet_log (by simp)).bind fun _ => quiet_pure _

end Run

/-! ## What is kept while releases run -/

/-- A property that quiet runs keep, and each release that is run when it and all that
    have run are the first ones of those in `R`, where the last one comes first. -/
structure Sustains (I : World → Prop) (R : List (Due Release)) : Prop where
  quiet : ∀ {w w' : World}, I w → w.Quiet w' → I w'
  /-- One that drops a context is only noted here. -/
  release : ∀ {w : World} (k : ContextId) (d : Due Release), I w → d :: w.journal.ran <:+ R →
    I ((Run.release (fun _ => pure ()) k d).exec w).2

/-- A run keeps a property wherever it ends, if what has run when it is done, by its
    effect on the ledger, are the first ones of the releases in `R`. -/
def Through (I : World → Prop) (R : List (Due Release)) (run : Run α) (F : Ledger → Ledger) : Prop :=
  ∀ w, I w → (F w.ledger).ran <:+ R → I (run.exec w).2

theorem Ledger.Outlasts.suffix {l l' : Ledger} (h : Outlasts l l') : l.ran <:+ l'.ran := by
  obtain ⟨new, hnew⟩ := h.ran
  exact ⟨new, hnew.symm⟩

theorem Ledger.suffix_destroy (k : ContextId) (s : Index) (l : Ledger) :
    l.ran <:+ (l.destroy k s).ran :=
  (Ledger.outlasts_releaseAll Ledger.outlasts_drop _ (l.onTree k _)).suffix

/-- A release that has nothing to do with descriptors and locks. -/
def Release.Detached : Release → Prop
  | .close _ | .leaveLock _ => False
  | .note _ _ | .dropContext _ _ | .forget _ | .restoreName _ => True

namespace Sustains

variable {I : World → Prop} {R : List (Due Release)} {F G : Ledger → Ledger}

/-- It is left to show what closing a descriptor and leaving a lock do, after they have
    been noted. -/
theorem of_noted (hquiet : ∀ {w w' : World}, I w → w.Quiet w' → I w')
    (hnote : ∀ {w : World} (d : Due Release), I w → d :: w.journal.ran <:+ R →
      d.release.Detached → I (w.note d))
    (hclose : ∀ {w : World} (i : Index) (fd : Int), I w → ⟨i, .close fd⟩ :: w.journal.ran <:+ R →
      I ((Run.closeOwned fd).exec (w.note ⟨i, .close fd⟩)).2)
    (hleave : ∀ {w : World} (i : Index) (lock : LockId), I w →
      ⟨i, .leaveLock lock⟩ :: w.journal.ran <:+ R →
        I ((Run.leaveLock lock).exec (w.note ⟨i, .leaveLock lock⟩)).2) : Sustains I R where
  quiet := hquiet
  release := by
    intro w k ⟨i, r⟩ hw hsuffix
    rw [Run.release, Run.exec_bind_ok
      (show (modify _ : Run Unit).exec w = (.ok (), w.note ⟨i, r⟩) from rfl)]
    cases r with
    | note label panics =>
      have hnoted : I (w.note ⟨i, .note label panics⟩) := hnote _ hw hsuffix trivial
      dsimp only
      split
      · exact hquiet hnoted
          ((Run.quiet_log (e := .releasePanicked) (by simp)).bind (fun _ => Run.quiet_throw .abort) _)
      · exact hnoted
    | dropContext label victim => exact hnote _ hw hsuffix trivial
    | forget payload => exact hnote _ hw hsuffix trivial
    | restoreName previous =>
      exact hquiet (hnote _ hw hsuffix trivial)
        (Run.quiet_onContext k (fun c => ((), { c with program := previous })) _)
    | close fd => exact hclose i fd hw hsuffix
    | leaveLock lock => exact hleave i lock hw hsuffix

theorem through_quiet (h : Sustains I R) {x : Run α} (hx : Run.Quiet x) (F : Ledger → Ledger) :
    Through I R x F :=
  fun w hw _ => h.quiet hw (hx w)

theorem through_bind {x : Run α} {f : α → Run β} (hx : Through I R x F) (hm : Run.Moves x F)
    (hf : ∀ a, Through I R (f a) G) (hG : ∀ l, l.ran <:+ (G l).ran) :
    Through I R (x >>= f) (G ∘ F) := by
  intro w hw hR
  have hw' := hx w hw ((hG _).trans hR)
  have hmoves := hm w
  rw [Run.exec_bind]
  rcases hr : x.exec w with ⟨e | a, w₁⟩ <;> rw [hr] at hw' hmoves
  · exact hw'
  · have hl : w₁.ledger = F w.ledger := hmoves.resolve_left (by simp)
    exact hf a w₁ hw' (by rw [hl]; exact hR)

/-- A quiet run after another one. -/
theorem through_then (h : Sustains I R) {x : Run α} {f : α → Run β} (hx : Through I R x F)
    (hf : ∀ a, Run.Quiet (f a)) : Through I R (x >>= f) F := by
  intro w hw hR
  have hw' := hx w hw hR
  rw [Run.exec_bind]
  rcases hr : x.exec w with ⟨e | a, w₁⟩ <;> rw [hr] at hw'
  · exact hw'
  · exact h.quiet hw' (hf a w₁)

/-- A log entry before another run. -/
theorem log_through (h : Sustains I R) {e : Event} (he : ∀ name, e ≠ .closedTwice name)
    {rest : Run α} (hrest : Through I R rest F) : Through I R (do Run.log e; rest) F := by
  intro w hw hR
  have hl := Run.aside_log e w
  rw [Run.exec_bind_ok (show (Run.log e).exec w = (.ok (), w.record e) from rfl)]
  exact hrest _ (h.quiet hw (w.quiet_record he)) (by rw [← hl] at hR; exact hR)

theorem through_discard {x : Run α} (hx : Through I R x F) : Through I R (discard x) F := by
  intro w hw hR
  rw [Run.exec_discard]
  exact hx w hw hR

/-! ### Releases -/

section

variable {drop : ContextId → Run Unit} {drop' : ContextId → Ledger → Ledger}

theorem through_release (h : Sustains I R) (hd : ∀ k, Through I R (drop k) (drop' k))
    (ho : ∀ k l, Ledger.Outlasts l (drop' k l)) (k : ContextId) (d : Due Release) :
    Through I R (Run.release drop k d) (Ledger.release drop' d) := by
  intro w hw hR
  obtain ⟨record, r⟩ := d
  have hnoted : (⟨record, r⟩ : Due Release) :: w.journal.ran <:+ R := by
    refine List.IsSuffix.trans ?_ hR
    unfold Ledger.release
    split
    · exact (ho _ (w.ledger.note ⟨record, r⟩)).suffix
    all_goals exact List.suffix_refl _
  have hrun := h.release k _ hw hnoted
  cases r with
  | dropContext label victim => exact hd victim _ hrun hR
  | _ => exact hrun

theorem through_releaseAll (h : Sustains I R) (hd : ∀ k, Through I R (drop k) (drop' k))
    (ho : ∀ k l, Ledger.Outlasts l (drop' k l)) (hs : ∀ k, Run.Settles (drop k) (drop' k))
    (k : ContextId) : ∀ due : List (Due Release),
    Through I R (Run.releaseAll drop k due) (Ledger.releaseAll drop' due)
  | [] => fun _ hw _ => hw
  | d :: more => through_bind (h.through_release hd ho k d) (Run.settles_release hs k d).moves
      (fun _ => h.through_releaseAll hd ho hs k more)
      fun l => (Ledger.outlasts_releaseAll ho more l).suffix

end

theorem through_dropWithin (h : Sustains I R) : ∀ (b : Nat) (k : ContextId),
    Through I R (Run.dropWithin b k) (Ledger.dropWithin b k)
  | 0, _ => fun _ hw _ => hw
  | b + 1, k => by
    intro w hw hR
    have hl := Run.ledger_take w k
    have hw₁ : I { w with contexts := w.contexts.setIfInBounds k none } :=
      h.quiet hw (Run.quiet_takeContext k w)
    rw [Run.dropWithin, Run.exec_bind_ok (show (Run.takeContext k).exec w = _ from rfl)]
    rw [Ledger.dropWithin] at hR
    rcases hc : w.context? k with _ | c
    · exact hw₁
    rw [show w.ledger.hold k = some c.hold from World.hold_of_context? hc] at hR
    dsimp only [Context.hold] at hR ⊢
    rw [← hl, Ledger.dueOf] at hR
    rcases hdestroy : c.tree.destroy c.tree.top with ⟨_ | teardown, t⟩
    · exact hw₁
    rw [hdestroy] at hR
    exact h.through_then (h.through_releaseAll (h.through_dropWithin b)
      (Ledger.outlasts_dropWithin b) (Run.settles_dropWithin b) k teardown.due)
        (fun _ => Run.quiet_log (by simp)) _ hw₁ hR

theorem through_dropContext (h : Sustains I R) (k : ContextId) :
    Through I R (Run.dropContext k) (Ledger.drop k) :=
  fun w => h.through_dropWithin w.contexts.size k w

/-! ### Operations -/

theorem through_destroyScope (h : Sustains I R) (k : ContextId) (s : Index) :
    Through I R (Run.destroyScope k s) (·.destroy k s) := by
  intro w hw hR
  change (w.ledger.destroy k s).ran <:+ R at hR
  obtain ⟨hr, hl⟩ := Run.exec_onTree k (·.destroy s) w
  have hw₁ := h.quiet hw (Run.quiet_onTree k (·.destroy s) w)
  rw [Run.destroyScope, Run.exec_bind_ok (Prod.ext hr rfl)]
  rw [Ledger.destroy, ← Run.hold_context, ← hl, Ledger.dueOf] at hR
  dsimp only [Context.hold] at hR
  rcases hdestroy : ((w.context k).tree.destroy s).1 with _ | teardown
  · exact hw₁
  rw [hdestroy] at hR
  exact h.through_then (h.through_releaseAll h.through_dropContext Ledger.outlasts_drop
    Run.settles_dropContext k teardown.due)
      (fun _ => (Run.quiet_log (by simp)).bind fun _ => Run.quiet_pure _) _ hw₁ hR

theorem through_leaveScope (h : Sustains I R) (k : ContextId) (s : Index) :
    Through I R (Run.leaveScope k s) (Op.change k (.leave s)).step := by
  intro w hw hR
  have hans : (w.context k).tree = (w.ledger.answer k).tree :=
    congrArg Hold.tree (Run.hold_context w k)
  have hleave : ∀ x, w.ledger.hold k = some x → x.tree = (w.context k).tree := by
    intro x hx
    rw [hans, Ledger.answer_of_hold hx]
  rw [Run.leaveScope, Run.exec_bind_ok (show (Run.view k (·.tree.parent? s)).exec w = _ from rfl)]
  rw [Op.step, Change.due, ← hans, Tree.leaving] at hR
  dsimp only
  rcases hp : (w.context k).tree.parent? s with _ | parent <;> rw [hp] at hR
  · refine h.through_destroyScope k s w hw ?_
    show (w.ledger.destroy k s).ran <:+ R
    rw [Ledger.destroy, ← hans, Ledger.onTree, Ledger.onHold_congr fun x hx => ?_]
    · exact hR
    rw [Change.apply, Tree.leaving, hleave x hx, hp]
  · refine through_bind (h.through_quiet (Run.quiet_onTree k fun t => ((), t.enter parent)) _)
      (Run.settles_enterScope k parent).moves (fun _ => h.through_destroyScope k s)
      (Ledger.suffix_destroy k s) w hw ?_
    show ((w.ledger.onHold k fun h => { h with tree := h.tree.enter parent }).destroy k s).ran <:+ R
    rw [Ledger.destroy_onHold (Tree.enter_new _ parent), ← hans, Ledger.onHold_congr fun x hx => ?_]
    · exact hR
    rw [Change.apply, Tree.leaving, hleave x hx, hp]

theorem through_commit (h : Sustains I R) (k : ContextId) (record : Index) (r : Release) :
    Through I R (Run.commit k record r) (Op.change k (.commit record r)).step := by
  intro w hw hR
  obtain ⟨hr, hl⟩ := Run.exec_onTree k (·.commit record r) w
  have hw₁ := h.quiet hw (Run.quiet_onTree k (·.commit record r) w)
  have hans : (w.context k).tree = (w.ledger.answer k).tree :=
    congrArg Hold.tree (Run.hold_context w k)
  have happly : ((Run.onTree k (·.commit record r)).exec w).2.ledger =
      w.ledger.onHold k (Change.apply (.commit record r)) := hl
  rw [Run.commit, Run.exec_bind_ok (Prod.ext hr rfl)]
  rw [Op.step, Change.due, ← hans, ← happly] at hR
  rcases hcommit : ((w.context k).tree.commit record r).1 with _ | _ <;> rw [hcommit] at hR
  · exact h.log_through (by simp)
      (h.through_release h.through_dropContext Ledger.outlasts_drop k ⟨record, r⟩) _ hw₁ hR
  · exact hw₁

theorem through_back (h : Sustains I R) {rest : Run α} (hrest : Through I R rest G)
    (hG : ∀ l, l.ran <:+ (G l).ran) (k : ContextId) (call : ProtectedCall) :
    Through I R (do
        Run.onContext k fun c => ((), { c with frame := call.outer })
        Run.enterScope k call.resume
        rest)
      (G ∘ Run.Ledger.back k call) := by
  have hframe := Run.settles_onContext (f := fun c : Context => ((), { c with frame := call.outer }))
    (g := fun h => { h with frame := call.outer }) (fun _ => rfl) k
  have hthrough := through_bind (h.through_quiet (Run.quiet_onContext k _) _) hframe.moves
    (fun _ => through_bind (h.through_quiet (Run.quiet_onTree k fun t => ((), t.enter call.resume)) _)
      (Run.settles_enterScope k call.resume).moves (fun _ => hrest) hG) fun l => hG (l.onTree k _)
  have hback : ∀ l, ((G ∘ fun l => l.onTree k (·.enter call.resume)) ∘ fun l : Ledger =>
      l.onHold k fun h => { h with frame := call.outer }) l = (G ∘ Run.Ledger.back k call) l :=
    fun l => congrArg G (Ledger.onHold_onHold l k _ _)
  intro w hw hR
  exact hthrough w hw (by rw [hback]; exact hR)

theorem through_leaveCall (h : Sustains I R) (k : ContextId) (call : ProtectedCall)
    (how : Exit Unit) :
    Through I R (Run.leaveCall k call how) (Op.change k (.exit call how)).step := by
  have hdestroy : (·.destroy k call.boundary) ∘ Run.Ledger.back k call = fun l => .releaseAll .drop
      (Ledger.dueOf ((l.answer k).tree.enter call.resume) call.boundary)
      (l.onHold k fun h =>
        ⟨((h.tree.enter call.resume).destroy call.boundary).2, call.outer⟩) :=
    funext fun l => Ledger.destroy_onHold (Tree.enter_new _ call.resume) call.boundary
  cases how with
  | returned value =>
    exact h.through_back (h.through_quiet ((Run.quiet_log (by simp)).bind fun _ =>
      Run.quiet_pure _) id) (fun l => List.suffix_refl _) k call
  | failed f =>
    have hrest : Through I R _ (·.destroy k call.boundary) := h.log_through
      (e := .unwinding call.depth f.code) (by simp)
      (h.through_then (h.through_destroyScope k call.boundary)
        fun _ => Run.quiet_pure (Except.error f.report : Except Report Unit))
    show Through I R _ (fun l => Ledger.releaseAll _ _ _)
    refine hdestroy ▸ h.through_back ?_ (Ledger.suffix_destroy k _) k call
    dsimp only
    split
    · exact h.log_through (by simp) hrest
    · exact hrest
  | panicked p =>
    show Through I R _ (fun l => Ledger.releaseAll _ _ _)
    exact hdestroy ▸ h.through_back (h.log_through (by simp)
      (h.through_then (h.through_destroyScope k call.boundary)
        fun _ => Run.quiet_throw (α := Except Report Unit) (.panic p)))
      (Ledger.suffix_destroy k _) k call

/-- An operation keeps what its releases keep, if all that will have run when it is done
    are the first ones of those in `R`. -/
theorem op (h : Sustains I R) : ∀ o : Op, Through I R o.run o.step
  | .newContext program => through_discard (h.through_quiet (Run.quiet_newContext program) _)
  | .dropContext k => through_discard (h.through_dropContext k)
  | .change k .push => through_discard (h.through_quiet (Run.quiet_pushScope k) _)
  | .change k .pop => through_discard (h.through_quiet (Run.quiet_popScope k) _)
  | .change k (.destroy s) => through_discard (h.through_destroyScope k s)
  | .change k (.leave s) => through_discard (h.through_leaveScope k s)
  | .change k .reserve => through_discard (h.through_quiet (Run.quiet_reserve k) _)
  | .change k (.commit record r) => through_discard (h.through_commit k record r)
  | .change k (.write record position byte) =>
    through_discard (h.through_quiet (Run.quiet_setByte k record position byte) _)
  | .change k (.enter detail) => through_discard (h.through_quiet (Run.quiet_enterCall k detail) _)
  | .change k (.exit call how) => through_discard (h.through_leaveCall k call how)

end Sustains

end ScopedResources
