/-
  The risks of a run.

  A run puts the process at risk where it makes a failure, where it performs an operation
  that runs releases, and where it gives up a clone of a debug lock.  Whatever else it does,
  and whatever failure or panic it stops with, the process goes on.

  * `Risking` are the pieces of runs, with the risks that they take.  All that a context
    offers is made of these pieces, by `Run.covering_risking`, and so are debug locks.
  * `process_ends`: the process ends where a risk is fatal, and nowhere else.
-/
import ScopedResources.Proofs.Covering
import ScopedResources.Proofs.Ending

namespace ScopedResources

/-- What may end the process. -/
inductive Risk where
  /-- A failure is made in a context. -/
  | raise (k : ContextId)
  /-- An operation, with the releases that it runs. -/
  | perform (o : Op)
  /-- A reference to a debug lock is given up, other than that of an acquisition. -/
  | dropLock (lock : LockId)

/-- Whether the process ends.  A failure ends it where its context is in no protected
    call. -/
def Risk.Fatal (w : World) : Risk → Prop
  | raise k => (w.context k).frame = none
  | perform o => o.Refused w.ledger ∨ o.Meets w fun w r => r.Fatal w
  | dropLock lock => w.LacksFile lock

/-- A risk, and the world in which it was taken. -/
structure Moment where
  before : World
  risk : Risk

namespace Moment

def Fatal (m : Moment) : Prop :=
  m.risk.Fatal m.before

/-- What has run when the process ends in an operation that was not refused: the releases
    up to the first one that is fatal, and no others. -/
def Stops (m : Moment) (w' : World) : Prop :=
  ∀ o, m.risk = .perform o → ¬ o.Refused m.before.ledger → ∃ pre d post,
    (o.step m.before.ledger).ran = (pre ++ d :: post).reverse ++ m.before.journal.ran ∧
    d.release.Fatal (m.before.after pre) ∧
    (∀ pre' e post', pre = pre' ++ e :: post' → ¬ e.release.Fatal (m.before.after pre')) ∧
    w'.journal.ran = d :: (pre.reverse ++ m.before.journal.ran)

end Moment

/-- The pieces of runs, and the risks that they take. -/
inductive Risking : {α : Type} → Run α → World → List Moment → Except Stop α → World → Prop
  /-- A run that takes none, in whatever world. -/
  | tame {α : Type} {run : Run α} {w w' : World} {r : Except Stop α} :
    Run.Tame run → run.exec w = (r, w') → Risking run w [] r w'
  | fail {k : ContextId} {code : Int} {f : Format} {w w' : World} {r : Except Stop Failure} :
    (Run.fail k code f).exec w = (r, w') → Risking (Run.fail k code f) w [⟨w, .raise k⟩] r w'
  | failNoMemory {k : ContextId} {w w' : World} {r : Except Stop Failure} :
    (Run.failNoMemory k).exec w = (r, w') → Risking (Run.failNoMemory k) w [⟨w, .raise k⟩] r w'
  | op {α : Type} {run : Run α} {w w' : World} {r : Except Stop α} (o : Op) :
    discard run = o.run → run.exec w = (r, w') → Risking run w [⟨w, .perform o⟩] r w'
  | dropLock {lock : LockId} {w w' : World} {r : Except Stop Unit} :
    (Run.dropLock lock).exec w = (r, w') → Risking (Run.dropLock lock) w [⟨w, .dropLock lock⟩] r w'

variable {α β : Type} {run : Run α} {w w' : World} {r : Except Stop α} {moments : List Moment}

namespace Risking

theorem exec_eq (h : Risking run w moments r w') : run.exec w = (r, w') := by
  cases h with
  | tame _ h | fail h | failNoMemory h | op _ _ h | dropLock h => exact h

theorem ends_of_risk {risk : Risk} (hfatal : r = .error .abort ↔ risk.Fatal w)
    (hstops : r = .error .abort → Moment.Stops ⟨w, risk⟩ w') :
    (r ≠ .error .abort → ∀ m ∈ [(⟨w, risk⟩ : Moment)], ¬ m.Fatal) ∧
      (r = .error .abort → ∃ m, [(⟨w, risk⟩ : Moment)] = [m] ∧ m.Fatal ∧ m.Stops w') := by
  refine ⟨fun hr m hm => ?_, fun hr => ⟨_, rfl, hfatal.1 hr, hstops hr⟩⟩
  rw [List.mem_singleton.1 hm]
  exact mt hfatal.2 hr

/-- A piece ends the process where its risk is fatal. -/
theorem ends (h : Risking run w moments r w') :
    (r ≠ .error .abort → ∀ m ∈ moments, ¬ m.Fatal) ∧
      (r = .error .abort → ∃ m, moments = [m] ∧ m.Fatal ∧ m.Stops w') := by
  cases h with
  | tame ht hexec =>
    have hr := (ht w).1
    rw [hexec] at hr
    exact ⟨by simp, fun h => absurd h hr⟩
  | @fail k code f _ _ _ hexec =>
    have hfatal := Run.exec_fail_abort_iff k code f w
    rw [hexec] at hfatal
    exact ends_of_risk hfatal fun _ o ho => by cases ho
  | @failNoMemory k _ _ _ hexec =>
    have hfatal := Run.exec_failNoMemory_abort_iff k w
    rw [hexec] at hfatal
    exact ends_of_risk hfatal fun _ o ho => by cases ho
  | op o hrun hexec =>
    have hfatal := o.exec_abort_iff w
    rw [← hrun, Run.discard_abort_iff, hexec] at hfatal
    refine ends_of_risk hfatal ?_
    rintro rfl o' ho hrefused
    cases ho
    exact Op.exec_abort_of_not_refused (Run.exec_of_discard hrun hexec) hrefused
  | @dropLock lock _ _ _ hexec =>
    have hfatal := Run.exec_dropLock_abort_iff lock w
    rw [hexec] at hfatal
    exact ends_of_risk hfatal fun _ o ho => by cases ho

end Risking

/-! ## The risks of a run -/

namespace Run

variable {k : ContextId}

/-- A run that takes none but these risks, in whatever world. -/
def Known (run : Run α) : Prop :=
  Covered Risking (fun _ => True) run

theorem known_of_piece (h : ∀ w, ∃ moments, Risking run w moments (run.exec w).1 (run.exec w).2) :
    Known run :=
  fun w _ => ⟨(h w).imp fun _ => .piece, trivial⟩

theorem Tame.known (h : Tame run) : Known run := known_of_piece fun _ => ⟨[], .tame h rfl⟩

theorem known_op (o : Op) (h : discard run = o.run) : Known run :=
  known_of_piece fun _ => ⟨_, .op o h rfl⟩

theorem Inert.tame (h : Inert run) : Tame run := fun w => ⟨h.goes w, congrArg Ledger.ran (h.aside w)⟩

theorem covering_risking : Covering Risking fun _ => True where
  inert h := h.tame.known
  fail _ _ _ := known_of_piece fun _ => ⟨_, .fail rfl⟩
  failNoMemory _ := known_of_piece fun _ => ⟨_, .failNoMemory rfl⟩
  op o _ := known_op o

/-! ### Debug locks -/

theorem known_dropLock (lock : LockId) : Known (dropLock lock) :=
  known_of_piece fun _ => ⟨_, .dropLock rfl⟩

theorem known_newLock (path : Bytes) : Known (newLock path) :=
  Tame.known fun _ => ⟨ne_abort_of_ok rfl, rfl⟩

theorem known_cloneLock (lock : LockId) : Known (cloneLock lock) :=
  Tame.known fun _ => ⟨ne_abort_of_ok rfl, rfl⟩

theorem tame_lockState (lock : LockId) : Tame (lockState lock) :=
  tame_get.bind fun _ => tame_pure _

theorem tame_lockLevel (lock : LockId) : Tame (lockLevel lock) :=
  (tame_lockState lock).bind fun _ => tame_pure _

theorem tame_openLockFile (path : Bytes) : Tame (openLockFile path) := by
  unfold openLockFile
  split
  · exact tame_pure _
  · refine (tame_host _).bind fun result => ?_
    split <;> exact tame_pure _

theorem tame_lockFile (lock : LockId) : Tame (lockFile lock) := by
  refine (tame_lockState lock).bind fun state => ?_
  split
  · exact tame_pure _
  · refine (tame_openLockFile _).bind fun opened => ?_
    split
    · exact (tame_modify fun _ => rfl).bind fun _ => tame_pure _
    · exact (tame_log _).bind fun _ => tame_pure _

theorem tame_takeLock (lock : LockId) (fd : Nat) : Tame (takeLock lock fd) := by
  refine (tame_host _).bind fun result => ?_
  split
  · exact tame_pure _
  · exact (tame_lockState lock).bind fun _ => tame_log _

theorem known_acquireLock (k : ContextId) (lock : LockId) : Known (acquireLock k lock) := by
  refine (covering_risking.reserve k).bind fun record => (tame_lockFile lock).known.bind fun file =>
    (tame_lockLevel lock).known.bind fun level => ?_
  have hcommit : Known (do
      modify fun w => { w with
        locks := w.locks.modify lock fun s =>
          { s with level := s.level + 1, references := s.references + 1 } }
      commit k record (.leaveLock lock)) := by
    refine Covered.bind (Tame.known (tame_modify ?_)) fun _ =>
      known_op (.change k (.commit record (.leaveLock lock))) rfl
    exact fun _ => rfl
  dsimp only
  split
  · split
    · exact (tame_takeLock lock _).known.bind fun _ => hcommit
    · exact hcommit
  · exact hcommit

theorem known_debugPrint (k : ContextId) (lock : LockId) (f : Format) : Known (debugPrint k lock f) :=
  covering_risking.debugPrint k (known_acquireLock k lock) f

end Run

/-! ## When the process ends -/

/-- The process ends in a run if one of the risks that it takes is fatal, and then in that
    one, which is the last.  In an operation the releases up to the one that is fatal have
    run by then, and no others. -/
theorem process_ends (h : Made Risking run w moments r w') :
    (r = .error .abort ↔ ∃ m ∈ moments, m.Fatal) ∧
      ∀ m ∈ moments, m.Fatal → moments.getLast? = some m ∧ m.Stops w' := by
  have hkeeps := h.keeps (F := fun _ => True) (fun _ => trivial)
    (fun pre _ => ∀ m ∈ pre, ¬ m.Fatal)
    (fun pre w' => ∃ before m, pre = before ++ [m] ∧ (∀ b ∈ before, ¬ b.Fatal) ∧ m.Fatal ∧ m.Stops w')
    (fun {α run w w' pre moments r} hpiece hpre _ => by
      obtain ⟨hgoes, hends⟩ := hpiece.ends
      refine ⟨fun hr => List.forall_mem_append.2 ⟨hpre, hgoes hr⟩, fun hr => ?_⟩
      obtain ⟨m, rfl, hm, hstops⟩ := hends hr
      exact ⟨pre, m, rfl, hpre, hm, hstops⟩)
    (show ∀ m ∈ ([] : List Moment), ¬ m.Fatal by simp) trivial
  rw [List.nil_append] at hkeeps
  obtain ⟨hgoes, hends⟩ := hkeeps
  by_cases hr : r = .error .abort
  · obtain ⟨before, last, rfl, hbefore, hlast, hstops⟩ := hends hr
    refine ⟨iff_of_true hr ⟨last, by simp, hlast⟩, fun m hm hfatal => ?_⟩
    obtain rfl : m = last := by
      rcases List.mem_append.1 hm with hm | hm
      · exact absurd hfatal (hbefore m hm)
      · exact List.mem_singleton.1 hm
    exact ⟨List.getLast?_concat .., hstops⟩
  · exact ⟨iff_of_false hr (by simpa using hgoes hr), fun m hm hfatal => absurd hfatal (hgoes hr m hm)⟩

/-- A context whose second release panics, after a protected call whose body panicked. -/
def panicsInTeardown : Run Unit := do
  let _ ← Run.newContext "example"
  let _ ← Run.attempt (Run.protect 0 .code (throw (.panic (.raised "stop")) : Run Unit))
  Run.defer 0 (.note "last" false)
  Run.defer 0 (.note "second" true)
  Run.defer 0 (.note "first" false)
  Run.dropContext 0

/-- The theorem above where the process ends in the middle of a teardown, and not before. -/
theorem process_ends_panicsInTeardown : ∃ moments w m,
    Made Risking panicsInTeardown .start moments (.error .abort) w ∧ moments.getLast? = some m ∧
      m.Fatal ∧ m.Stops w ∧ w.journal.labels = ["first", "second"] := by
  have hknown : Run.Known panicsInTeardown :=
    (Run.covering_risking.newContext _).bind fun _ =>
      (Run.covering_risking.protect 0 .code
        (Run.covering_risking.inert (Run.inert_panic (.raised "stop")))).attempt.bind fun _ =>
      (Run.covering_risking.defer 0 (by simp)).bind fun _ =>
      (Run.covering_risking.defer 0 (by simp)).bind fun _ =>
      (Run.covering_risking.defer 0 (by simp)).bind fun _ => Run.covering_risking.dropContext 0
  obtain ⟨⟨moments, hmade⟩, -⟩ := hknown .start trivial
  rw [show (panicsInTeardown.exec .start).1 = .error .abort by decide +kernel] at hmade
  obtain ⟨hends, hlast⟩ := process_ends hmade
  obtain ⟨m, hm, hfatal⟩ := hends.1 rfl
  obtain ⟨hlast, hstops⟩ := hlast m hm hfatal
  exact ⟨moments, _, m, hmade, hlast, hfatal, hstops, by decide +kernel⟩

/-- A scope that has acquired a debug lock without clones, and is to close a descriptor that
    the file of the lock was given. -/
def closesLockFile : Run Unit := do
  let lock ← Run.newLock (Utf8.encode "lock")
  let _ ← Run.newContext "example"
  let _ ← Run.pushScope 0
  Run.acquireLock 0 lock
  Run.dropLock lock
  Run.defer 0 (.close 3)

/-- The process ends although no failure was made and no release failed: the last reference
    to a debug lock went, whose file had been closed. -/
theorem process_ends_by_lock : ∃ w w',
    closesLockFile.exec .start = (.ok (), w) ∧
      Made Risking (Run.destroyScope 0 ⟨0, 1, 0⟩) w [⟨w, .perform (.change 0 (.destroy ⟨0, 1, 0⟩))⟩]
        (.error .abort) w' ∧
      ¬ (Op.change 0 (.destroy ⟨0, 1, 0⟩)).Refused w.ledger ∧
      ¬ (Op.change 0 (.destroy ⟨0, 1, 0⟩)).Meets w fun w r => r.Fails w := by
  refine ⟨(closesLockFile.exec .start).2, _, Prod.ext (by decide +kernel) rfl,
    .piece (.op (.change 0 (.destroy ⟨0, 1, 0⟩)) rfl (Prod.ext (by decide +kernel) rfl)), id, ?_⟩
  rintro ⟨pre, d, post, hran, hfails⟩
  have hstep : ((Op.change 0 (.destroy ⟨0, 1, 0⟩)).step (closesLockFile.exec .start).2.ledger).ran =
      [⟨⟨0, 3, 0⟩, .close 3⟩, ⟨⟨0, 2, 0⟩, .leaveLock 0⟩].reverse ++
        (closesLockFile.exec .start).2.journal.ran := by
    decide +kernel
  have hopen : (closesLockFile.exec .start).2.host.isOpen 3 = true := by decide +kernel
  rw [hstep, List.append_cancel_right_eq, List.reverse_inj] at hran
  rcases pre with _ | ⟨e, pre⟩
  · -- the descriptor of the file of the lock is open, and closed for the first time
    cases hran
    cases hopen.symm.trans hfails
  · rcases pre with _ | ⟨e', pre⟩
    · cases hran
      exact hfails
    · simp at hran

end ScopedResources
