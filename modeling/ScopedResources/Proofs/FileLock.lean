/-
  The file lock of a debug lock.

  The first acquisition of a debug lock takes the lock of its file, and the end of the
  last one gives it back.  But the file may not be there for the first; then it is opened
  for a later one, which does not take the lock.  So the lock is held while there are
  acquisitions, if the file was open when the first of these was made.

  * `Run.raiseLock` is what an acquisition does between its reservation and its commit.
  * `Locking` are the pieces of runs on one debug lock; each of them keeps what is known
    of it, `Locking.guarded`.
  * `file_locked`: when the lock is held.
-/
import ScopedResources.Proofs.Guards
import ScopedResources.Proofs.Made
import ScopedResources.Proofs.Structured

namespace ScopedResources

variable {w w' : World} {lock : LockId} {file : Option Nat} {taken : Bool} {s : DebugLock}

/-! ## Acquisitions -/

namespace Run

/-- What an acquisition does between its reservation and its commit. -/
def raiseLock (lock : LockId) : Run Unit := do
  let file ← lockFile lock
  if (← lockLevel lock) = 0 then
    if let some fd := file then takeLock lock fd
  modify fun w => { w with
    locks := w.locks.modify lock fun s =>
      { s with level := s.level + 1, references := s.references + 1 } }

theorem acquireLock_eq (k : ContextId) (lock : LockId) :
    acquireLock k lock = (do
      let record ← reserve k
      raiseLock lock
      commit k record (.leaveLock lock)) := by
  unfold acquireLock raiseLock
  simp only [bind_assoc]
  congr 1
  funext record
  congr 1
  funext file
  congr 1
  funext level
  split
  · split <;> simp only [bind_assoc]
  · rfl

theorem exec_lockState (hs : w.locks[lock]? = some s) : (lockState lock).exec w = (.ok s, w) := by
  show (Except.ok ((w.locks[lock]?).getD _), w) = _
  rw [hs]
  rfl

/-- The file of a lock, which is opened if it was not open. -/
theorem exec_lockFile (hs : w.locks[lock]? = some s) : ∃ file' w₂,
    (lockFile lock).exec w = (.ok file', w₂) ∧ w₂.ledger = w.ledger ∧
      w₂.locks[lock]? = some { s with file := file' } ∧
        ((∃ fd, s.file = some fd ∧ file' = some fd ∧ w₂ = w) ∨
          s.file = none ∧ ∀ fd ∈ file', ∃ f, w₂.host.openFile? fd = some f ∧ f.locked = false) := by
  obtain ⟨path, file, level, references⟩ := s
  rw [lockFile, exec_bind_ok (exec_lockState hs)]
  rcases file with _ | fd
  · -- where the file cannot be opened there is a warning, and the lock stays as it is
    have hwarned : ∀ (h' : Host) (e : Event), ∃ w₂,
        (do log e; return none : Run (Option Nat)).exec { w with host := h' } = (.ok none, w₂) ∧
          w₂.ledger = w.ledger ∧ w₂.locks[lock]? = some ⟨path, none, level, references⟩ := by
      intro h' e
      refine ⟨World.record { w with host := h' } e, rfl, ledger_record { w with host := h' } e, ?_⟩
      rw [(still_record { w with host := h' } e).locks]
      exact hs
    dsimp only
    rw [openLockFile]
    split
    · obtain ⟨w₂, hexec, hledger, hs₂⟩ := hwarned w.host _
      exact ⟨none, w₂, hexec, hledger, hs₂, .inr ⟨rfl, by simp⟩⟩
    · have hyields := Host.yields_openFile path
        ⟨.readWrite, true, false, false, false, false, false⟩ lockFileMode w.host
      rw [bind_assoc, exec_bind_ok (exec_host _ w)]
      generalize ((Host.openFile path ⟨.readWrite, true, false, false, false, false, false⟩
        lockFileMode).exec w.host) = opened at hyields
      obtain ⟨e | fd, h'⟩ := opened
      · obtain ⟨w₂, hexec, hledger, hs₂⟩ := hwarned h' _
        exact ⟨none, w₂, hexec, hledger, hs₂, .inr ⟨rfl, by simp⟩⟩
      · refine ⟨some fd, _, rfl, rfl, ?_, .inr ⟨rfl, fun n hn => ?_⟩⟩
        · show (w.locks.modify lock _)[lock]? = _
          rw [Array.getElem?_modify, if_pos rfl, hs]
          rfl
        · cases hn
          exact hyields fd rfl
  · exact ⟨some fd, w, rfl, rfl, hs, .inl ⟨fd, rfl, rfl, rfl⟩⟩

theorem exec_takeLock (lock : LockId) {fd : Nat} {f : OpenFile}
    (ho : w.host.openFile? fd = some f) : ∃ h',
    (takeLock lock fd).exec w = (.ok (), { w with host := h' }) ∧
      h'.openFile? fd = some { f with locked := true } := by
  obtain ⟨h', hexec, hopen⟩ := Host.exec_lock ho
  have hlock : (host (Host.lock fd)).exec w = (.ok (.ok ()), { w with host := h' }) := by
    rw [exec_host, hexec]
  exact ⟨h', by rw [takeLock, exec_bind_ok hlock]; rfl, hopen⟩

/-- An acquisition raises the level.  If that was zero, the file is locked where it is
    open; a file that is opened at another level is not locked. -/
theorem exec_raiseLock (hs : w.locks[lock]? = some s)
    (hopen : ∀ fd ∈ s.file, ∃ f, w.host.openFile? fd = some f ∧
      (f.locked = true ↔ taken = true ∧ s.level ≠ 0)) (htaken : taken = true → s.file.isSome) :
    ∃ file' taken' w', (raiseLock lock).exec w = (.ok (), w') ∧ w'.ledger = w.ledger ∧
      w'.locks[lock]? = some { s with
        file := file', level := s.level + 1, references := s.references + 1 } ∧
      taken' = (if s.level = 0 then file'.isSome else taken) ∧ (taken' = true → file'.isSome) ∧
      ∀ fd ∈ file', ∃ f, w'.host.openFile? fd = some f ∧ f.locked = taken' := by
  obtain ⟨file', w₂, hfile, hledger, hs₂, hcases⟩ := exec_lockFile hs
  have hview : (lockLevel lock).exec w₂ = (.ok s.level, w₂) := by
    rw [lockLevel, exec_bind_ok (exec_lockState hs₂)]
    rfl
  have hraised : ∀ h', ({ w₂ with host := h' }.locks.modify lock fun s =>
      { s with level := s.level + 1, references := s.references + 1 })[lock]? = some { s with
        file := file', level := s.level + 1, references := s.references + 1 } := by
    intro h'
    rw [Array.getElem?_modify, if_pos rfl, hs₂]
    rfl
  have hkept : taken = true → file'.isSome := by
    intro ht
    rcases hcases with ⟨n, -, rfl, -⟩ | ⟨hnone, -⟩
    · rfl
    · rw [hnone] at htaken
      cases htaken ht
  have hstate : ∀ fd ∈ file', ∃ f, w₂.host.openFile? fd = some f ∧
      (s.level ≠ 0 → f.locked = taken) := by
    intro fd hfd
    rcases hcases with ⟨n, hn, rfl, rfl⟩ | ⟨hnone, hunlocked⟩
    · obtain ⟨f, hf, hlocked⟩ := hopen fd (by rw [hn]; exact hfd)
      exact ⟨f, hf, fun hne => Bool.eq_iff_iff.2 (hlocked.trans (and_iff_left hne))⟩
    · obtain ⟨f, hf, hlocked⟩ := hunlocked fd hfd
      refine ⟨f, hf, fun _ => hlocked.trans (Bool.eq_false_iff.2 fun ht => ?_).symm⟩
      rw [hnone] at htaken
      cases htaken ht
  rw [raiseLock, exec_bind_ok hfile, exec_bind_ok hview]
  by_cases hzero : s.level = 0
  · rw [if_pos hzero]
    rcases file' with _ | fd
    · exact ⟨none, false, _, rfl, hledger, hraised w₂.host, by rw [if_pos hzero]; rfl, by simp, by simp⟩
    · obtain ⟨f, hf, -⟩ := hstate fd rfl
      obtain ⟨h', htake, hlocked⟩ := exec_takeLock lock hf
      dsimp only
      rw [exec_bind_ok htake]
      refine ⟨some fd, true, _, rfl, hledger, hraised h', by rw [if_pos hzero]; rfl, fun _ => rfl,
        fun n hn => ?_⟩
      cases hn
      exact ⟨_, hlocked, rfl⟩
  · rw [if_neg hzero]
    refine ⟨file', taken, _, rfl, hledger, hraised w₂.host, by rw [if_neg hzero], hkept,
      fun fd hfd => ?_⟩
    obtain ⟨f, hf, hlocked⟩ := hstate fd hfd
    exact ⟨f, hf, hlocked hzero⟩

end Run

/-! ## A whole run -/

/-- Whether the file was open when an acquisition was made, if it was the first. -/
def Step.openAtFirst? (lock : LockId) (s : Step) : Option Bool :=
  match s.op, s.before.locks[lock]? with
  | .change _ (.commit _ (.leaveLock l)), some state =>
    if l = lock ∧ state.level = 1 then some state.file.isSome else none
  | _, _ => none

/-- Whether the file of a debug lock was open when the first of the acquisitions that are
    alive was made. -/
def openAtFirst (lock : LockId) (steps : List Step) : Bool :=
  (steps.filterMap (·.openAtFirst? lock)).getLastD false

/-- The pieces of runs on a debug lock. -/
inductive Locking (lock : LockId) :
    {α : Type} → Run α → World → List Step → Except Stop α → World → Prop
  /-- A run that is no operation on a context and leaves the lock alone, but for clones of
      it. -/
  | aside {α : Type} {run : Run α} {w w' : World} {r : Except Stop α} :
    run.exec w = (r, w') → w.Steady lock w' → Locking lock run w [] r w'
  /-- An operation on a context that is no acquisition of the lock. -/
  | op {α : Type} {run : Run α} {w w' : World} {r : Except Stop α} (o : Op)
    (new : List (Due Release)) : (∀ d ∈ o.given, d.release ≠ .leaveLock lock) → discard run = o.run →
    run.exec w = (r, w') → r ≠ .error .abort → w'.journal.ran = new ++ w.journal.ran →
    (∀ s, w.locks[lock]? = some s → ∀ d ∈ new, d.release.Harmless lock s.file) →
    Locking lock run w [⟨w, o, w'⟩] r w'
  /-- An acquisition of the lock, at a level that can be raised. -/
  | acquire {k : ContextId} {w w₁ w₂ w' : World} {i : Index} {s : DebugLock} :
    (Run.reserve k).exec w = (.ok i, w₁) → w₁.locks[lock]? = some s → 0 < s.references →
    s.level.toNat + 1 < 2 ^ 32 → (Run.raiseLock lock).exec w₁ = (.ok (), w₂) →
    (Run.commit k i (.leaveLock lock)).exec w₂ = (.ok (), w') →
    Locking lock (Run.acquireLock k lock) w
      [⟨w, .change k .reserve, w₁⟩, ⟨w₂, .change k (.commit i (.leaveLock lock)), w'⟩] (.ok ()) w'

theorem DebugLock.level_raised {level : UInt32} (h : level.toNat + 1 < 2 ^ 32) :
    (level + 1).toNat = level.toNat + 1 ∧ level + 1 ≠ 0 ∧ (level + 1 = 1 ↔ level = 0) := by
  have hraised : (level + 1).toNat = level.toNat + 1 := by
    rw [UInt32.toNat_add]
    exact Nat.mod_eq_of_lt h
  refine ⟨hraised, ?_, ?_⟩
  · rw [Ne, ← UInt32.toNat_inj, hraised]
    simp
  · rw [← UInt32.toNat_inj, hraised, ← UInt32.toNat_inj]
    simp

theorem openAtFirst_snoc (lock : LockId) (pre : List Step) (s : Step) :
    openAtFirst lock (pre ++ [s]) = (s.openAtFirst? lock).getD (openAtFirst lock pre) := by
  rw [openAtFirst, List.filterMap_append]
  rcases h : s.openAtFirst? lock with _ | b
  · simp [h, openAtFirst]
  · simp [h]

theorem Step.openAtFirst?_of_given {s : Step} (h : ∀ d ∈ s.op.given, d.release ≠ .leaveLock lock) :
    s.openAtFirst? lock = none := by
  unfold openAtFirst?
  split
  · rename_i k i l state hop _
    rw [hop] at h
    exact if_neg fun hl => h _ (List.mem_singleton_self _) (by rw [hl.1])
  · rfl

/-- The invariant of runs on a debug lock, after the operations `pre`. -/
structure Guarded (lock : LockId) (pre : List Step) (w : World) : Prop where
  balanced : Balanced w.ledger (given pre)
  guards : ∃ file, Guards lock (given pre) file (openAtFirst lock pre) w ∧
    (openAtFirst lock pre = true → file.isSome)

variable {α : Type} {run : Run α} {r : Except Stop α} {pre steps : List Step} {o : Op}
  {new : List (Due Release)}

/-- What an acquisition runs, if its record is gone, is harmless. -/
theorem Run.ran_of_commit {k : ContextId} {i : Index}
    (hexec : (commit k i (.leaveLock lock)).exec w = (.ok (), w')) :
    ∃ new, w'.journal.ran = new ++ w.journal.ran ∧ ∀ d ∈ new, ∀ file, d.release.Harmless lock file := by
  have hledger : w'.ledger = (Op.change k (.commit i (.leaveLock lock))).step w.ledger :=
    step_of_change (.commit i (.leaveLock lock)) rfl hexec (by simp)
  refine ⟨Change.due (.commit i (.leaveLock lock)) (w.ledger.answer k), ?_, fun d hd file => ?_⟩
  · refine (congrArg Ledger.ran hledger).trans ?_
    rw [Op.step, Change.due]
    split <;> rfl
  · rw [Change.due] at hd
    split at hd
    · cases hd
    · rw [List.mem_singleton.1 hd]
      rfl

namespace Guarded

/-- An operation before which the acquisition that it may complete counts already. -/
theorem of_guards (file : Option Nat) (hb : Balanced w.ledger (given pre))
    (hlin : Linear (pre ++ [⟨w, o, w'⟩]))
    (h : Guards lock (given pre ++ o.given) file (openAtFirst lock (pre ++ [⟨w, o, w'⟩])) w)
    (hopen : openAtFirst lock (pre ++ [⟨w, o, w'⟩]) = true → file.isSome)
    {r : Except Stop Unit} (hexec : o.run.exec w = (r, w')) (hr : r ≠ .error .abort)
    (hran : w'.journal.ran = new ++ w.journal.ran)
    (hharmless : ∀ d ∈ new, d.release.Harmless lock file) :
    Guarded lock (pre ++ [⟨w, o, w'⟩]) w' where
  balanced := by
    rw [o.ledger_of_exec hexec hr, given_snoc]
    exact hb.step o hlin.records
  guards := ⟨file, by rw [given_snoc]; exact h.op hb hlin.records hexec hr hran hharmless, hopen⟩

/-- An operation that is no acquisition. -/
theorem op (hw : Guarded lock pre w) (hlin : Linear (pre ++ [⟨w, o, w'⟩]))
    (hgiven : ∀ d ∈ o.given, d.release ≠ .leaveLock lock) {r : Except Stop Unit}
    (hexec : o.run.exec w = (r, w')) (hr : r ≠ .error .abort)
    (hran : w'.journal.ran = new ++ w.journal.ran)
    (hharmless : ∀ s, w.locks[lock]? = some s → ∀ d ∈ new, d.release.Harmless lock s.file) :
    Guarded lock (pre ++ [⟨w, o, w'⟩]) w' := by
  obtain ⟨file, ⟨s, hs, rfl, hlevel, hle, hhost⟩, hopen⟩ := hw.guards
  have hsame : openAtFirst lock (pre ++ [⟨w, o, w'⟩]) = openAtFirst lock pre := by
    rw [openAtFirst_snoc, Step.openAtFirst?_of_given hgiven]
    rfl
  have hzero : leaves lock o.given = 0 :=
    List.countP_eq_zero.2 fun d hd => by simpa using hgiven d hd
  refine of_guards s.file hw.balanced hlin ⟨s, hs, rfl, ?_, hle, ?_⟩ ?_ hexec hr hran
    (hharmless s hs)
  · rw [leaves_append, hzero, hlevel]
    rfl
  · rw [hsame]; exact hhost
  · rw [hsame]; exact hopen

/-- The end of an acquisition: the level is raised, and the record that was reserved gets
    its release. -/
theorem acquired (hw : Guarded lock pre w) {k : ContextId} {i : Index} {w₂ : World}
    (hlin : Linear (pre ++ [⟨w₂, .change k (.commit i (.leaveLock lock)), w'⟩]))
    (hs : w.locks[lock]? = some s) (href : 0 < s.references) (hlevel : s.level.toNat + 1 < 2 ^ 32)
    (hraise : (Run.raiseLock lock).exec w = (.ok (), w₂))
    (hcommit : (Run.commit k i (.leaveLock lock)).exec w₂ = (.ok (), w')) :
    Guarded lock (pre ++ [⟨w₂, .change k (.commit i (.leaveLock lock)), w'⟩]) w' := by
  obtain ⟨file, ⟨s₁, hs₁, rfl, hcount, hle, hhost⟩, hopen⟩ := hw.guards
  cases hs.symm.trans hs₁
  obtain ⟨file', taken', w₃, hexec, hledger, hs₃, htaken, hsome, hhost'⟩ :=
    Run.exec_raiseLock hs (hhost href) hopen
  cases hraise.symm.trans hexec
  obtain ⟨hraised, hne, hone⟩ := DebugLock.level_raised hlevel
  have hfirst : openAtFirst lock (pre ++ [⟨w₂, .change k (.commit i (.leaveLock lock)), w'⟩]) =
      taken' := by
    rw [openAtFirst_snoc, Step.openAtFirst?]
    dsimp only
    rw [hs₃, htaken]
    by_cases hzero : s.level = 0 <;> simp [hone, hzero]
  have hcommit' : (Op.change k (.commit i (.leaveLock lock))).run.exec w₂ = (.ok (), w') :=
    Run.exec_of_discard rfl hcommit
  have hran₂ : w₂.journal.ran = w.journal.ran := congrArg Ledger.ran hledger
  obtain ⟨new, hran, hharmless⟩ := Run.ran_of_commit hcommit
  -- the level counts the acquisition already, as do the releases with that of the record
  refine .of_guards file' (by rw [hledger]; exact hw.balanced) hlin
    ⟨_, hs₃, rfl, ?_, ?_, fun _ fd hfd => ?_⟩ (by rw [hfirst]; exact hsome) hcommit' (by simp) hran
    fun d hd => hharmless d hd file'
  · have hgiven : leaves lock (Op.change k (.commit i (.leaveLock lock))).given = 1 := by
      simp [leaves, Op.given, Change.given]
    rw [leaves_append, hgiven, hran₂, hraised]
    omega
  · show (s.level + 1).toNat ≤ s.references + 1
    omega
  · obtain ⟨f, hf, hlocked⟩ := hhost' fd hfd
    exact ⟨f, hf, by rw [hlocked, hfirst, and_iff_left hne]⟩

end Guarded

namespace Locking

/-- Every piece keeps the invariant. -/
theorem guarded (h : Locking lock run w steps r w') (hw : Guarded lock pre w)
    (hlin : Linear (pre ++ steps)) : Guarded lock (pre ++ steps) w' := by
  cases h with
  | aside _ hsteady =>
    obtain ⟨file, hguards, hopen⟩ := hw.guards
    rw [List.append_nil]
    exact ⟨by rw [hsteady.ledger]; exact hw.balanced, file, hguards.steady hsteady, hopen⟩
  | op o new hgiven hrun hexec hr hran hharmless =>
    have hexec' : o.run.exec w = (r.map fun _ => (), w') := Run.exec_of_discard hrun hexec
    exact hw.op hlin hgiven hexec' (Run.map_ne_abort hr) hran hharmless
  | @acquire k w w₁ w₂ w' i s hreserve hs href hlevel hraise hcommit =>
    rw [List.append_cons] at hlin ⊢
    have hexec : (Op.change k .reserve).run.exec w = (.ok (), w₁) :=
      Run.exec_of_discard rfl hreserve
    have hran : w₁.journal.ran = [] ++ w.journal.ran :=
      congrArg Ledger.ran (Run.step_of_change .reserve rfl hreserve (by simp))
    have h₁ : Guarded lock (pre ++ [⟨w, .change k .reserve, w₁⟩]) w₁ :=
      hw.op hlin.of_append (fun d hd => by cases hd) hexec (by simp) hran fun _ _ d hd => by cases hd
    exact h₁.acquired hlin hs href hlevel hraise hcommit

theorem exec_eq (h : Locking lock run w steps r w') : run.exec w = (r, w') := by
  cases h with
  | aside hexec _ => exact hexec
  | op o _ _ _ hexec _ _ _ => exact hexec
  | acquire hreserve _ _ _ hraise hcommit =>
    rw [Run.acquireLock_eq, Run.exec_bind_ok hreserve, Run.exec_bind_ok hraise, hcommit]

/-- Whatever becomes of it, an acquisition is made of these pieces. -/
theorem made_acquireLock {k : ContextId} {r : Except Stop Unit} (hw : Guarded lock pre w)
    (hs : w.locks[lock]? = some s) (href : 0 < s.references) (hlevel : s.level.toNat + 1 < 2 ^ 32)
    (hexec : (Run.acquireLock k lock).exec w = (r, w')) (hr : r ≠ .error .abort) :
    ∃ steps, Made (Locking lock) (Run.acquireLock k lock) w steps r w' := by
  rw [Run.acquireLock_eq] at hexec ⊢
  have hquiet := Run.quiet_reserve k w
  rcases hreserve : (Run.reserve k).exec w with ⟨e | i, w₁⟩ <;> rw [hreserve] at hquiet
  · rw [Run.exec_bind_error hreserve] at hexec
    cases hexec
    exact ⟨_, .stop (.piece (.op (.change k .reserve) [] (fun d hd => by cases hd) rfl hreserve
      (fun he => hr (by cases he; rfl)) hquiet.ran fun _ _ d hd => by cases hd))⟩
  · obtain ⟨file, hguards, hopen⟩ := hw.guards
    obtain ⟨s₁, hs₁, rfl, -, -, hhost⟩ := hguards.quiet hquiet
    rw [hquiet.locks, hs] at hs₁
    cases hs₁
    rw [← hquiet.locks] at hs
    obtain ⟨-, -, w₂, hraise, -⟩ := Run.exec_raiseLock hs (hhost href) hopen
    rw [Run.exec_bind_ok hreserve, Run.exec_bind_ok hraise] at hexec
    obtain ⟨⟨⟩, rfl⟩ := (Run.settles_commit k i _).ok hexec hr
    rw [← Run.acquireLock_eq]
    exact ⟨_, .piece (.acquire hreserve hs href hlevel hraise hexec)⟩

/-- An operation that returns. -/
theorem of_ok (o : Op) (new : List (Due Release)) (hgiven : ∀ d ∈ o.given, d.release ≠ .leaveLock lock)
    (hrun : discard run = o.run) {a : α} (h : (run.exec w).1 = .ok a)
    (hran : (run.exec w).2.journal.ran = new ++ w.journal.ran)
    (hharmless : ∀ d ∈ new, d.release = .leaveLock lock) :
    Locking lock run w [⟨w, o, (run.exec w).2⟩] (.ok a) (run.exec w).2 :=
  .op o new hgiven hrun (Prod.ext h rfl) (by simp) hran fun s _ d hd => by
    rw [hharmless d hd]
    rfl

/-- An acquisition that returns. -/
theorem of_acquire {k : ContextId} {i : Index} {w₁ w₂ : World}
    (hreserve : ((Run.reserve k).exec w).1 = .ok i) (h₁ : ((Run.reserve k).exec w).2 = w₁)
    (hs : (w₁.locks[lock]?).any fun s => 0 < s.references ∧ s.level.toNat + 1 < 2 ^ 32)
    (hraise : ((Run.raiseLock lock).exec w₁).1 = .ok ()) (h₂ : ((Run.raiseLock lock).exec w₁).2 = w₂)
    (hcommit : ((Run.commit k i (.leaveLock lock)).exec w₂).1 = .ok ()) :
    Locking lock (Run.acquireLock k lock) w
      [⟨w, .change k .reserve, w₁⟩, ⟨w₂, .change k (.commit i (.leaveLock lock)),
        ((Run.commit k i (.leaveLock lock)).exec w₂).2⟩]
      (.ok ()) ((Run.commit k i (.leaveLock lock)).exec w₂).2 := by
  obtain ⟨s, hs, h⟩ := (Option.any_eq_true _ _).1 hs
  obtain ⟨href, hlevel⟩ := of_decide_eq_true h
  exact .acquire (Prod.ext hreserve h₁) hs href hlevel (Prod.ext hraise h₂) (Prod.ext hcommit rfl)

end Locking

/-- A debug lock that was just made. -/
theorem guarded_newLock (path : Bytes) (host : Host) (identity : String) (log : Option Log) :
    Guarded 0 [] ((Run.newLock path).exec (World.new host identity log)).2 where
  balanced := balanced_new host identity log
  guards := ⟨none, ⟨⟨path, none, 0, 1⟩, rfl, rfl, rfl, Nat.zero_le 1, fun _ _ h => by cases h⟩,
    fun h => by cases h⟩

/-- The level of a debug lock is the number of its acquisitions that are alive.  Its file
    is locked by it while the level is not zero, if it was open when the first of these
    was made, and not at level zero. -/
theorem file_locked {path : Bytes} {host : Host} {identity : String} {log : Option Log}
    (hrun : Made (Locking 0) run ((Run.newLock path).exec (World.new host identity log)).2 steps r w)
    (hlin : Linear steps) (hr : r ≠ .error .abort) (hs : w.locks[0]? = some s)
    (href : 0 < s.references) :
    s.level.toNat + leaves 0 w.journal.ran = leaves 0 (given steps) ∧
      (w.HoldsLock 0 ↔ s.level ≠ 0 ∧ openAtFirst 0 steps = true) := by
  have hkeeps := hrun.keeps Linear.of_append (Guarded 0) (fun _ _ => True)
    (fun hpiece hw hlin => ⟨fun _ => hpiece.guarded hw hlin, fun _ => trivial⟩)
    (guarded_newLock path host identity log) hlin
  obtain ⟨file, ⟨s', hs', rfl, hlevel, -, hhost⟩, hopen⟩ := (hkeeps.1 hr).guards
  cases hs.symm.trans hs'
  refine ⟨hlevel, ?_⟩
  constructor
  · rintro ⟨s', fd, f, hs', hfd, hf, hlocked⟩
    cases hs.symm.trans hs'
    obtain ⟨f', hf', hiff⟩ := hhost href fd hfd
    cases hf.symm.trans hf'
    exact (hiff.1 hlocked).symm
  · rintro ⟨hne, hfirst⟩
    obtain ⟨fd, hfd⟩ := Option.isSome_iff_exists.1 (hopen hfirst)
    obtain ⟨f, hf, hiff⟩ := hhost href fd hfd
    exact ⟨s, fd, f, hs, hfd, hf, hiff.2 ⟨hfirst, hne⟩⟩

/-- A world with a debug lock. -/
def World.withLock : World :=
  ((Run.newLock (Utf8.encode "lock")).exec .start).2

/-- A debug lock that was acquired twice, once in a scope that has ended. -/
def lockedTwice : Run Unit := do
  let _ ← Run.newContext "example"
  Run.acquireLock 0 0
  let _ ← Run.pushScope 0
  Run.acquireLock 0 0
  let _ ← Run.destroyScope 0 ⟨0, 2, 0⟩

/-- The theorem above where one of two acquisitions has ended. -/
theorem file_locked_lockedTwice : ∃ steps w s,
    Made (Locking 0) lockedTwice .withLock steps (.ok ()) w ∧ Linear steps ∧
      w.locks[0]? = some s ∧ s.level = 1 ∧ w.HoldsLock 0 := by
  obtain ⟨steps, w, hmade, hlin, hfirst⟩ : ∃ steps w,
      Made (Locking 0) lockedTwice .withLock steps (.ok ()) w ∧ Linear steps ∧
        openAtFirst 0 steps = true := by
    refine ⟨_, _, .bind (.piece (.of_ok (a := 0) (.newContext "example") [] nofun rfl rfl rfl nofun))
      (.bind (.piece (.of_acquire (i := ⟨0, 1, 0⟩) rfl rfl (by decide +kernel) (by decide +kernel) rfl
        (by decide +kernel)))
      (.bind (.piece (.of_ok (a := ⟨0, 2, 0⟩) (.change 0 .push) [] nofun rfl (by decide +kernel)
        (by decide +kernel) nofun))
      (.bind (.piece (.of_acquire (i := ⟨0, 3, 0⟩) (by decide +kernel) rfl (by decide +kernel)
        (by decide +kernel) rfl (by decide +kernel)))
      (.bind (.piece (.of_ok (a := true) (.change 0 (.destroy ⟨0, 2, 0⟩)) [⟨⟨0, 3, 0⟩, .leaveLock 0⟩]
        nofun rfl (by decide +kernel) (by decide +kernel) (by simp)))
      (.piece (.aside rfl (.refl _))))))), ?_, ?_⟩
    · unfold Linear
      decide +kernel
    · decide +kernel
  have hw : lockedTwice.exec .withLock = (.ok (), w) := hmade.exec_eq id Locking.exec_eq
  have hlock : ((lockedTwice.exec .withLock).2.locks[0]?).map (fun s => (s.level, s.references)) =
      some (1, 2) := by
    decide +kernel
  rw [hw] at hlock
  obtain ⟨s, hs, hlevel⟩ := Option.map_eq_some_iff.1 hlock
  have hone : s.level = 1 := congrArg Prod.fst hlevel
  have href : s.references = 2 := congrArg Prod.snd hlevel
  obtain ⟨-, hheld⟩ := file_locked hmade hlin (by simp) hs (by omega)
  exact ⟨steps, w, s, hmade, hlin, hs, hone, hheld.2 ⟨by rw [hone]; decide, hfirst⟩⟩

/-- A debug lock whose file could not be opened for the first of two acquisitions. -/
def lockedLate : Run Unit := do
  let _ ← Run.newContext "example"
  modify fun w => { w with host.limit := ⟨0, by decide⟩ }
  Run.acquireLock 0 0
  modify fun w => { w with host.limit := Host.usualLimit }
  Run.acquireLock 0 0

/-- A file that is opened for a later acquisition is not locked, although the lock has been
    acquired. -/
theorem file_unlocked : ∃ steps w s,
    Made (Locking 0) lockedLate .withLock steps (.ok ()) w ∧ Linear steps ∧
      w.locks[0]? = some s ∧ s.level = 2 ∧ s.file.isSome ∧ ¬ w.HoldsLock 0 := by
  have hlimit : ∀ (w : World) (limit : DescriptorLimit),
      w.Steady 0 { w with host.limit := limit } := fun w _ =>
    ⟨rfl, fun s hs => ⟨s.references, hs, id, fun href => ⟨href, fun _ _ => rfl⟩⟩⟩
  obtain ⟨steps, w, hmade, hlin⟩ : ∃ steps w,
      Made (Locking 0) lockedLate .withLock steps (.ok ()) w ∧ Linear steps := by
    refine ⟨_, _, .bind (.piece (.of_ok (a := 0) (.newContext "example") [] nofun rfl rfl rfl nofun))
      (.bind (.piece (.aside rfl (hlimit _ _)))
      (.bind (.piece (.of_acquire (i := ⟨0, 1, 0⟩) rfl rfl (by decide +kernel) (by decide +kernel) rfl
        (by decide +kernel)))
      (.bind (.piece (.aside rfl (hlimit _ _)))
      (.piece (.of_acquire (i := ⟨0, 2, 0⟩) (by decide +kernel) rfl (by decide +kernel)
        (by decide +kernel) rfl (by decide +kernel)))))), ?_⟩
    unfold Linear
    decide +kernel
  have hw : lockedLate.exec .withLock = (.ok (), w) := hmade.exec_eq id Locking.exec_eq
  have hlock : ((lockedLate.exec .withLock).2.locks[0]?).map
      (fun s => (s.level, s.file.isSome)) = some (2, true) := by
    decide +kernel
  have hunlocked : ((lockedLate.exec .withLock).2.locks[0]?).bind (fun s => s.file.bind fun fd =>
      ((lockedLate.exec .withLock).2.host.openFile? fd).map (·.locked)) = some false := by
    decide +kernel
  rw [hw] at hlock hunlocked
  obtain ⟨s, hs, hlevel⟩ := Option.map_eq_some_iff.1 hlock
  obtain ⟨htwo, hfile⟩ := Prod.mk.inj hlevel
  refine ⟨steps, w, s, hmade, hlin, hs, htwo, hfile, ?_⟩
  rintro ⟨s', fd, f, hs', hfd, hf, hlocked⟩
  simp [hs', hfd, hf, hlocked] at hunlocked

end ScopedResources
