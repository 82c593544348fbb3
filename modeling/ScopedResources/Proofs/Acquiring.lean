/-
  What is acquired outside of the ledger.

  The host gives out descriptors, and debug locks are taken.  Each of these is
  acquired a moment before its release is given to a record.

  * `Host.Call.Keeps`, `Host.Call.Opens`: which descriptors a call gives out.
  * `World.Gains`: what was acquired, by the releases that it needs.
  * `Run.Idle` are the runs that acquire nothing which needs a release; opening the file
    of a debug lock is one of them.
-/
import ScopedResources.Proofs.Undoing

namespace ScopedResources

/-! ## Calls to the host -/

namespace Host

variable {α β : Type} {ds : Array (Option Descriptor)} {h h' : Host}

/-- A call that leaves the descriptors as they are, where they are `ds`. -/
def Call.KeepsAt (ds : Array (Option Descriptor)) (call : Call α) : Prop :=
  ∀ h : Host, h.descriptors = ds → (call.exec h).2.descriptors = ds

theorem Call.Keeps.at {call : Call α} (h : call.Keeps) (ds : Array (Option Descriptor)) :
    call.KeepsAt ds :=
  fun w hw => (h w).trans hw

theorem keeps_of_keepsAt {call : Call α} (h : ∀ ds, call.KeepsAt ds) : call.Keeps :=
  fun w => h w.descriptors w rfl

theorem Call.KeepsAt.bind {x : Call α} {f : α → Call β} (hx : x.KeepsAt ds)
    (hf : ∀ a, (f a).KeepsAt ds) : (x >>= f).KeepsAt ds := by
  intro h hh
  have hk := hx h hh
  rw [exec_bind]
  rcases hr : x.exec h with ⟨_ | a, h'⟩
  · rw [hr] at hk; exact hk
  · rw [hr] at hk; exact hf a h' hk

theorem keepsAt_get {f : Host → Call β} (hf : ∀ h : Host, h.descriptors = ds → (f h).KeepsAt ds) :
    (get >>= f).KeepsAt ds := by
  intro h hh
  exact hf h hh h hh

theorem keepsAt_set (hh : h.descriptors = ds) : (set h : Call PUnit).KeepsAt ds :=
  fun _ _ => hh

theorem keepsAt_pure (a : α) : (pure a : Call α).KeepsAt ds := (keeps_pure a).at ds

theorem keepsAt_throw (e : Errno) : (throw e : Call α).KeepsAt ds := (keeps_throw e).at ds

theorem keepsAt_lift (x : Except Errno α) : (liftM x : Call α).KeepsAt ds := by
  intro h hh
  rcases x with e | a <;> exact hh

/-- A call that is refused does not go on. -/
theorem keepsAt_refused (e : Errno) (f : α → Call β) : ((throw e : Call α) >>= f).KeepsAt ds := by
  intro h hh
  rw [exec_bind]
  exact hh

theorem keepsAt_openExisting (id : FileId) (flags : OpenFlags) (asDirectory : Bool) :
    (openExisting id flags asDirectory).KeepsAt ds := by
  refine keepsAt_get fun h hh => ?_
  split
  · split
    · exact keepsAt_throw _
    · exact keepsAt_pure _
  · dsimp only
    split
    · exact keepsAt_refused _ _
    · split
      · exact keepsAt_refused _ _
      · split
        · exact keepsAt_set hh
        · exact keepsAt_pure _
  · split
    · exact keepsAt_throw _
    · exact keepsAt_pure _
  · split
    · exact keepsAt_throw _
    · exact keepsAt_pure _
  · exact keepsAt_throw _

theorem keeps_locate (path : Bytes) (flags : OpenFlags) (mode : Nat) :
    (locate path flags mode).Keeps := by
  refine keeps_of_keepsAt fun ds => keepsAt_get fun h hh => (keepsAt_lift _).bind fun place => ?_
  have hopen : ∀ id asDirectory, Call.KeepsAt ds (do openExisting id flags asDirectory; return id) :=
    fun id asDirectory => (keepsAt_openExisting id flags asDirectory).bind fun _ => keepsAt_pure id
  dsimp only
  split
  · split
    · exact keepsAt_refused _ _
    · exact hopen _ _
  · split
    · exact keepsAt_refused _ _
    · split
      · split
        · exact keepsAt_refused _ _
        · exact hopen _ _
      · split
        · refine Call.KeepsAt.bind (keepsAt_set ?_) fun _ => keepsAt_pure _
          exact hh
        · exact keepsAt_throw _

/-! ### New descriptors -/

/-- A call that gives out the descriptors `fds`, and no other. -/
def Call.Opens (call : Call α) (fds : α → List Nat) : Prop :=
  ∀ (h : Host) (n : Int), (call.exec h).2.isOpen n = true →
    h.isOpen n = true ∨ ∃ a, (call.exec h).1 = .ok a ∧ ∃ fd ∈ fds a, n = fd

theorem Call.Keeps.opens {call : Call α} (h : call.Keeps) (fds : α → List Nat) : call.Opens fds := by
  intro host n hn
  left
  unfold isOpen descriptor? at hn ⊢
  rwa [h host] at hn

theorem Call.Opens.after {x : Call α} {f : α → Call β} {fds : β → List Nat} (hx : x.Keeps)
    (hf : ∀ a, (f a).Opens fds) : (x >>= f).Opens fds := by
  intro h n hn
  have hk := hx.opens (fun _ => []) h n
  rw [exec_bind] at hn ⊢
  rcases hr : x.exec h with ⟨e | a, h'⟩ <;> rw [hr] at hn hk
  · exact .inl ((hk hn).resolve_right (by simp))
  · rcases hf a h' n hn with hn | hn
    · exact .inl ((hk hn).resolve_right (by simp))
    · exact .inr hn

theorem freeNumber_le (h : Host) : h.freeNumber ≤ h.descriptors.size := by
  rw [freeNumber]
  rcases hi : h.descriptors.findIdx? (·.isNone) with _ | i
  · rw [hi]
    exact Nat.le_refl _
  · rw [hi]
    exact Nat.le_of_lt (Array.findIdx?_eq_some_iff_findIdx_eq.1 hi).1

theorem isOpen_place (h : Host) {number : Nat} (d : Descriptor) (hle : number ≤ h.descriptors.size)
    {n : Int} (hn : (h.place number d).isOpen n = true) : h.isOpen n = true ∨ n = number := by
  unfold isOpen descriptor? place at hn
  unfold isOpen descriptor?
  by_cases h0 : 0 ≤ n
  · rw [if_pos h0] at hn ⊢
    by_cases hne : n.toNat = number
    · right
      omega
    · left
      split at hn
      · rwa [Array.getElem?_setIfInBounds_ne (Ne.symm hne)] at hn
      · rw [Array.getElem?_push, if_neg (by omega)] at hn
        exact hn
  · rw [if_neg h0] at hn
    cases hn

theorem exec_giveOut (d : Descriptor) (h : Host) :
    (giveOut d).exec h =
      if h.exhausted = true then (.error Errno.tooManyFiles, h)
      else (.ok h.freeNumber, h.place h.freeNumber d) := by
  rw [giveOut, exec_bind]
  show Call.exec (if h.exhausted = true then _ else _) h = _
  split <;> rfl

theorem exec_install (file : OpenFile) (closeOnExec : Bool) (h : Host) :
    (install file closeOnExec).exec h =
      if h.exhausted = true then (.error Errno.tooManyFiles, h)
      else (.ok h.freeNumber, { h with openFiles := h.openFiles.push file }.place h.freeNumber
        ⟨h.openFiles.size, closeOnExec⟩) := by
  rw [install, exec_bind]
  show Call.exec (if h.exhausted = true then _ else _) h = _
  by_cases hx : h.exhausted = true
  · rw [if_pos hx, if_pos hx]
    rfl
  · rw [if_neg hx, if_neg hx]
    show Call.exec (giveOut _) { h with openFiles := h.openFiles.push file } = _
    rw [exec_giveOut]
    exact if_neg hx

/-- A host with one more open file, and a descriptor that refers to it. -/
def installed (h : Host) (file : OpenFile) : Host :=
  { h with openFiles := h.openFiles.push file }.place h.freeNumber ⟨h.openFiles.size, true⟩

theorem exec_install_closing (file : OpenFile) (h : Host) :
    (install file true).exec h =
      if h.exhausted = true then (.error Errno.tooManyFiles, h)
      else (.ok h.freeNumber, h.installed file) :=
  exec_install file true h

/-- A call that changes nothing if it is refused. -/
theorem exec_orNothing (call : Call α) (h : Host) :
    (orNothing call).exec h =
      match call.exec h with
      | (.ok a, h') => (.ok a, h')
      | (.error e, _) => (.error e, h) := by
  show (tryCatch call fun e => set h >>= fun _ => throw e : Call α).exec h = _
  unfold Call.exec
  rw [ExceptT.run_tryCatch, StateT.run_bind]
  rcases StateT.run call.run h with ⟨_ | a, h'⟩ <;> rfl

theorem opens_giveOut (d : Descriptor) : (giveOut d).Opens fun number => [number] := by
  intro h n hn
  rw [exec_giveOut] at hn ⊢
  split at hn
  · exact .inl hn
  · rename_i hx
    rw [if_neg hx]
    exact (isOpen_place _ _ h.freeNumber_le hn).imp id fun hn => ⟨_, rfl, _, List.mem_singleton_self _, hn⟩

theorem opens_refused (e : Errno) (f : α → Call β) (fds : β → List Nat) :
    ((throw e : Call α) >>= f).Opens fds := by
  intro h n hn
  rw [exec_bind] at hn
  exact .inl hn

theorem opens_install (file : OpenFile) (closeOnExec : Bool) :
    (install file closeOnExec).Opens fun number => [number] := by
  intro h n hn
  rw [exec_install] at hn ⊢
  split at hn
  · exact .inl hn
  · rename_i hx
    rw [if_neg hx]
    have hopen := isOpen_place { h with openFiles := h.openFiles.push file } _ (freeNumber_le h) hn
    exact hopen.imp id fun hn => ⟨_, rfl, _, List.mem_singleton_self _, hn⟩

theorem opens_openFile (path : Bytes) (flags : OpenFlags) (mode : Nat) :
    (openFile path flags mode).Opens fun number => [number] := by
  unfold openFile
  dsimp only
  split
  · exact opens_refused _ _ _
  · refine .after (keeps_of_keepsAt fun ds => keepsAt_lift _) fun _ => .after keeps_get fun h => ?_
    split
    · exact opens_refused _ _ _
    · exact .after (keeps_locate path flags mode) fun _ => opens_install _ _

/-! ### Pipes -/

def readEndFile (pipe : Nat) : OpenFile := ⟨.readEnd pipe, StatusWord.ofAccess .readOnly, 0, false⟩

def writeEndFile (pipe : Nat) : OpenFile := ⟨.writeEnd pipe, StatusWord.ofAccess .writeOnly, 0, false⟩

/-- A host with one more pipe and a descriptor for its reading end. -/
def halfPiping (h : Host) : Host :=
  { h with pipes := h.pipes.push .empty }.installed (readEndFile h.pipes.size)

/-- A host after a pipe was opened. -/
def piping (h : Host) : Host :=
  h.halfPiping.installed (writeEndFile h.pipes.size)

/-- The descriptor of the writing end, where a pipe was opened. -/
def writeEnd (h : Host) : Nat := h.halfPiping.freeNumber

/-- Where there is no descriptor for one of its ends, there is no pipe. -/
theorem exec_openPipe (h : Host) :
    openPipe.exec h =
      if h.exhausted = true ∨ h.halfPiping.exhausted = true then (.error Errno.tooManyFiles, h)
      else (.ok (h.freeNumber, h.writeEnd), h.piping) := by
  obtain ⟨started, hstarted⟩ : ∃ started, started = { h with pipes := h.pipes.push .empty } := ⟨_, rfl⟩
  have hread : (install (readEndFile h.pipes.size) true).exec started =
      if h.exhausted = true then (.error Errno.tooManyFiles, started)
      else (.ok h.freeNumber, h.halfPiping) :=
    hstarted ▸ exec_install_closing _ _
  have hwrite := exec_install_closing (writeEndFile h.pipes.size) h.halfPiping
  have hends : openEnds.exec h = Call.exec (install (readEndFile h.pipes.size) true >>= fun readEnd =>
      install (writeEndFile h.pipes.size) true >>= fun writeEnd => pure (readEnd, writeEnd)) started :=
    hstarted ▸ rfl
  rw [openPipe, exec_orNothing, hends, exec_bind, hread]
  by_cases hx : h.exhausted = true
  · rw [if_pos hx, if_pos (.inl hx)]
  · rw [if_neg hx]
    dsimp only
    rw [exec_bind, hwrite]
    by_cases hx' : h.halfPiping.exhausted = true
    · rw [if_pos hx', if_pos (.inr hx')]
    · rw [if_neg hx', if_neg (not_or.2 ⟨hx, hx'⟩)]
      rfl

theorem isOpen_installed (h : Host) (file : OpenFile) {n : Int}
    (hn : (h.installed file).isOpen n = true) : h.isOpen n = true ∨ n = h.freeNumber :=
  isOpen_place { h with openFiles := h.openFiles.push file } _ (freeNumber_le h) hn

/-- Either both ends of a pipe are given out, or none is. -/
theorem opens_openPipe : openPipe.Opens fun ends => [ends.1, ends.2] := by
  intro h n hn
  rw [exec_openPipe] at hn ⊢
  split at hn
  · exact .inl hn
  · rename_i hx
    rw [if_neg hx]
    rcases isOpen_installed h.halfPiping _ hn with hn | hn
    · rcases isOpen_installed { h with pipes := h.pipes.push .empty } _ hn with hn | hn
      · exact .inl hn
      · exact .inr ⟨_, rfl, _, List.mem_cons_self .., hn⟩
    · exact .inr ⟨_, rfl, _, List.mem_cons_of_mem _ (List.mem_singleton_self _), hn⟩

theorem opens_duplicate (fd : Int) : (duplicate fd).Opens fun number => [number] := by
  refine .after keeps_get fun h => ?_
  split
  · dsimp only
    split
    · exact opens_refused _ _ _
    · exact opens_giveOut _
  · exact (keeps_throw _).opens _

theorem keeps_lock (fd : Int) : (lock fd).Keeps :=
  (keeps_opened fd).bind fun _ => keeps_update _ _

theorem keeps_write (fd : Int) (bytes : Bytes) : (write fd bytes).Keeps := by
  refine keeps_of_keepsAt fun ds => ((keeps_opened fd).at ds).bind fun opened => ?_
  obtain ⟨id, file⟩ := opened
  dsimp only
  split
  · exact keepsAt_refused _ _
  refine keepsAt_get fun h hh => ?_
  split
  · split
    · refine Call.KeepsAt.bind (keepsAt_set ?_) fun _ =>
        ((keeps_update _ _).at ds).bind fun _ => keepsAt_pure _
      exact hh
    · exact keepsAt_throw _
    · exact keepsAt_lift _
    · split
      · exact keepsAt_refused _ _
      · refine Call.KeepsAt.bind (keepsAt_set ?_) fun _ => keepsAt_pure _
        exact hh
    · exact keepsAt_throw _
  · split
    · split
      · exact keepsAt_refused _ _
      · split
        · exact keepsAt_refused _ _
        · refine Call.KeepsAt.bind (keepsAt_set ?_) fun _ => keepsAt_pure _
          exact hh
    · exact keepsAt_throw _
  · refine (keepsAt_lift _).bind fun _ => Call.KeepsAt.bind (keepsAt_set ?_) fun _ => keepsAt_pure _
    exact hh
  · refine (keepsAt_lift _).bind fun _ => Call.KeepsAt.bind (keepsAt_set ?_) fun _ => keepsAt_pure _
    exact hh
  · exact keepsAt_throw _
  · exact keepsAt_throw _

/-- A file without a path is not opened. -/
theorem exec_openFile_nil (flags : OpenFlags) (mode : Nat) (h : Host)
    (hf : (flags.create && flags.directory) = false) :
    (openFile [] flags mode).exec h = (.error Errno.noEntry, h) := by
  unfold openFile
  dsimp only
  rw [if_neg (by rw [hf]; exact Bool.false_ne_true), exec_bind]
  rfl

end Host

/-! ## What is gained -/

variable {α β : Type} {w w' w'' : World} {k : ContextId} {gained : List Release}

namespace World

/-- A descriptor is the file of a debug lock that had no file before. -/
def NewFile (w w' : World) (fd : Int) : Prop :=
  ∃ (lock : LockId) (s' : DebugLock) (n : Nat), w'.locks[lock]? = some s' ∧ s'.file = some n ∧
    fd = n ∧ ∀ s, w.locks[lock]? = some s → s.file = none

/-- The debug locks are still there, and have the files that they had. -/
def KeepsFiles (w w' : World) : Prop :=
  ∀ (lock : LockId) (s : DebugLock), w.locks[lock]? = some s →
    ∃ s', w'.locks[lock]? = some s' ∧ ∀ n, s.file = some n → s'.file = some n

theorem KeepsFiles.refl (w : World) : w.KeepsFiles w :=
  fun _ s hs => ⟨s, hs, fun _ h => h⟩

theorem KeepsFiles.trans (h : w.KeepsFiles w') (h' : w'.KeepsFiles w'') : w.KeepsFiles w'' := by
  intro lock s hs
  obtain ⟨s', hs', hfile⟩ := h lock s hs
  obtain ⟨s'', hs'', hfile'⟩ := h' lock s' hs'
  exact ⟨s'', hs'', fun n hn => hfile' n (hfile n hn)⟩

/-- A file that is new stays one. -/
theorem NewFile.keeps {fd : Int} (h : w.NewFile w' fd) (hk : w'.KeepsFiles w'') : w.NewFile w'' fd := by
  obtain ⟨lock, s', n, hs', hfile, hfd, hnew⟩ := h
  obtain ⟨s'', hs'', hkept⟩ := hk lock s' hs'
  exact ⟨lock, s'', n, hs'', hkept n hfile, hfd, hnew⟩

/-- A file that is new now was not there before. -/
theorem NewFile.since {fd : Int} (h : w'.NewFile w'' fd) (hk : w.KeepsFiles w') : w.NewFile w'' fd := by
  obtain ⟨lock, s'', n, hs'', hfile, hfd, hnew⟩ := h
  refine ⟨lock, s'', n, hs'', hfile, hfd, fun s hs => ?_⟩
  obtain ⟨s', hs', hkept⟩ := hk lock s hs
  have hnone := hnew s' hs'
  rcases hf : s.file with _ | n
  · rfl
  · rw [hkept n hf] at hnone
    cases hnone

/-- Something was acquired for which the releases `gained` have yet to be given to
    records, and nothing else has changed: descriptors, and debug locks. The files of
    debug locks belong to the locks, and need no release. -/
structure Gains (w w' : World) (gained : List Release) : Prop where
  ledger : w'.ledger = w.ledger
  program : ∀ j, (w'.context? j).map (·.program) = (w.context? j).map (·.program)
  kind : ∀ r ∈ gained, (∃ fd, r = .close fd) ∨ ∃ lock, r = .leaveLock lock
  opened : ∀ fd, w'.host.isOpen fd = true →
    w.host.isOpen fd = true ∨ .close fd ∈ gained ∨ w.NewFile w' fd
  files : w.KeepsFiles w'
  level : ∀ (lock : LockId) (s s' : DebugLock), w.locks[lock]? = some s → w'.locks[lock]? = some s' →
    s'.level = s.level + UInt32.ofNat (gained.count (.leaveLock lock))

theorem Still.gains (h : w.Still w') (hl : w'.ledger = w.ledger) : w.Gains w' [] where
  ledger := hl
  program := h.program
  kind := by simp
  opened fd hfd := .inl (by rwa [isOpen_congr h.descriptors] at hfd)
  files lock s hs := ⟨s, by rw [h.locks]; exact hs, fun _ hn => hn⟩
  level lock s s' hs hs' := by
    rw [h.locks, hs] at hs'
    cases hs'
    exact (UInt32.add_zero _).symm

theorem Gains.trans (h : w.Gains w' []) (h' : w'.Gains w'' gained) : w.Gains w'' gained where
  ledger := h'.ledger.trans h.ledger
  program j := (h'.program j).trans (h.program j)
  kind := h'.kind
  opened fd hfd := by
    rcases h'.opened fd hfd with hfd | hg | hn
    · rcases h.opened fd hfd with hfd | hg | hn
      · exact .inl hfd
      · cases hg
      · exact .inr (.inr (hn.keeps h'.files))
    · exact .inr (.inl hg)
    · exact .inr (.inr (hn.since h.files))
  files := h.files.trans h'.files
  level lock s s'' hs hs'' := by
    obtain ⟨s', hs', -⟩ := h.files lock s hs
    rw [h'.level lock s' s'' hs' hs'', h.level lock s s' hs hs']
    exact congrArg (· + _) (UInt32.add_zero _)

/-- Where only the host has changed, what is gained are descriptors. -/
theorem gains_host {h' : Host} {fds : List Nat} (hfds : ∀ n : Int, h'.isOpen n = true →
    w.host.isOpen n = true ∨ ∃ fd ∈ fds, n = Int.ofNat fd) :
    w.Gains { w with host := h' } (fds.map fun fd : Nat => .close fd) where
  ledger := rfl
  program _ := rfl
  kind r hr := by
    obtain ⟨fd, -, rfl⟩ := List.mem_map.1 hr
    exact .inl ⟨fd, rfl⟩
  opened n hn := by
    refine (hfds n hn).imp id fun hn => .inl ?_
    obtain ⟨fd, hfd, rfl⟩ := hn
    exact List.mem_map_of_mem hfd
  files := .refl _
  level lock s s' hs hs' := by
    rw [show s' = s from Option.some.inj (hs'.symm.trans hs), List.count_eq_zero_of_not_mem (by simp)]
    exact (UInt32.add_zero _).symm

end World

namespace Run

/-- A run that gains nothing, however it ends. -/
def Idle (run : Run α) : Prop :=
  ∀ w : World, w.Gains (run.exec w).2 []

theorem Calm.idle {run : Run α} (h : Calm run) (ha : Aside run) : Idle run :=
  fun w => (h w).gains (ha w)

theorem Idle.bind {x : Run α} {f : α → Run β} (hx : Idle x) (hf : ∀ a, Idle (f a)) :
    Idle (x >>= f) := by
  intro w
  have h := hx w
  rw [exec_bind]
  rcases hr : x.exec w with ⟨_ | a, w'⟩
  · rw [hr] at h; exact h
  · rw [hr] at h; exact h.trans (hf a w')

theorem idle_pure (a : α) : Idle (pure a : Run α) := (calm_pure a).idle (aside_pure a)

theorem idle_view (k : ContextId) (f : Context → α) : Idle (view k f) :=
  (calm_view k f).idle (aside_view k f)

theorem idle_log (e : Event) : Idle (log e) := (calm_log e).idle (aside_log e)

theorem idle_throwing {f : Run Failure} (hf : Calm f) (ha : Aside f) : Idle (throwing f : Run α) :=
  (calm_throwing hf).idle (aside_throwing ha)

theorem idle_granted {what : Run String} (hw : Calm what) (ha : Aside what) (k : ContextId)
    (result : Except Errno α) : Idle (granted k what result) :=
  (calm_granted hw k result).idle (aside_granted ha k result)

theorem calm_writeWithin (fd : Int) : ∀ (b : Nat) (bytes : Bytes), Calm (writeWithin fd b bytes)
  | 0, _ => calm_pure _
  | b + 1, bytes => by
    rw [writeWithin]
    split
    · exact calm_pure _
    · refine (calm_host (Host.keeps_write fd bytes)).bind fun result => ?_
      split
      · exact calm_pure _
      · exact calm_writeWithin fd b _
      · exact calm_pure _

theorem calm_writeStandardError (bytes : Bytes) : Calm (writeStandardError bytes) := by
  refine (calm_writeWithin standardError bytes.length bytes).bind fun result => ?_
  split <;> exact calm_pure _

/-! ### Debug locks -/

theorem calm_lockState (lock : LockId) : Calm (lockState lock) :=
  calm_get.bind fun _ => calm_pure _

theorem calm_takeLock (lock : LockId) (fd : Nat) : Calm (takeLock lock fd) := by
  refine (calm_host (Host.keeps_lock _)).bind fun result => ?_
  split
  · exact calm_pure _
  · exact (calm_lockState lock).bind fun _ => calm_log _

/-- The file that was opened, if any was, is the only new descriptor. -/
theorem exec_openLockFile (path : Bytes) (w : World) : ∃ result h',
    (openLockFile path).exec w = (.ok result, { w with host := h' }) ∧
      (∀ n : Int, h'.isOpen n = true →
        w.host.isOpen n = true ∨ ∃ fd : Nat, result = .ok fd ∧ n = fd) ∧
      (path = [] → ∀ fd, result ≠ .ok fd) := by
  unfold openLockFile
  split
  · exact ⟨_, w.host, rfl, fun _ hn => .inl hn, fun _ _ => by simp⟩
  · have hopens := Host.opens_openFile path ⟨.readWrite, true, false, false, false, false, false⟩
      lockFileMode w.host
    rw [exec_bind_ok (exec_host _ w)]
    rcases hr : (Host.openFile path ⟨.readWrite, true, false, false, false, false, false⟩
      lockFileMode).exec w.host with ⟨e | fd, h'⟩
    · rw [hr] at hopens
      refine ⟨_, h', rfl, fun n hn => .inl ((hopens n hn).resolve_right (by simp)), fun _ _ => by simp⟩
    · rw [hr] at hopens
      refine ⟨_, h', rfl, fun n hn => (hopens n hn).imp id ?_, ?_⟩
      · rintro ⟨a, ha, fd', hfd, hn⟩
        cases ha
        exact ⟨fd, rfl, by rw [hn, List.mem_singleton.1 hfd]⟩
      · rintro rfl
        rw [Host.exec_openFile_nil _ _ _ rfl] at hr
        cases hr

/-- A descriptor that becomes the file of a debug lock belongs to the lock. -/
theorem gains_file {lock : LockId} {state : DebugLock} {fd : Nat} {h' : Host}
    (hs : w.locks[lock]? = some state) (hfile : state.file = none)
    (hopens : ∀ n : Int, h'.isOpen n = true → w.host.isOpen n = true ∨ n = fd) :
    w.Gains { w with
      host := h'
      locks := w.locks.modify lock fun s => { s with file := some fd } } [] where
  ledger := rfl
  program _ := rfl
  kind := by simp
  opened n hn := by
    refine (hopens n hn).imp id fun hn =>
      .inr ⟨lock, { state with file := some fd }, fd, ?_, rfl, hn, fun s hs' => ?_⟩
    · rw [Array.getElem?_modify, if_pos rfl, hs]
      rfl
    · rw [hs] at hs'
      cases hs'
      exact hfile
  files j s hs' := by
    refine ⟨if lock = j then { s with file := some fd } else s, ?_, fun n hn => ?_⟩
    · rw [Array.getElem?_modify, hs']
      split <;> rfl
    · split
      · rename_i hj
        rw [← hj, hs] at hs'
        cases hs'
        rw [hfile] at hn
        cases hn
      · exact hn
  level j s s' hs₁ hs₂ := by
    dsimp only at hs₂
    rw [Array.getElem?_modify, hs₁] at hs₂
    split at hs₂ <;> cases hs₂ <;> exact (UInt32.add_zero _).symm

/-- The file of a debug lock is opened for the lock. -/
theorem idle_lockFile (lock : LockId) : Idle (lockFile lock) := by
  intro w
  obtain ⟨state, hstate⟩ : ∃ state, state = (w.locks[lock]?).getD ⟨[], none, 0, 0⟩ := ⟨_, rfl⟩
  have hexec : (lockState lock).exec w = (.ok state, w) := by rw [hstate]; rfl
  rw [lockFile, exec_bind_ok hexec]
  rcases hfile : state.file with _ | fd
  · obtain ⟨result, h', hexec, hopens, hnil⟩ := exec_openLockFile state.path w
    dsimp only
    rw [exec_bind_ok hexec]
    rcases result with e | fd
    · have hhost : w.Gains { w with host := h' } (([] : List Nat).map fun fd : Nat => .close fd) :=
        World.gains_host fun n hn => (hopens n hn).imp id fun ⟨fd, hfd, _⟩ => by cases hfd
      exact World.Gains.trans hhost (((idle_log _).bind fun _ => idle_pure none) _)
    · rcases hlock : w.locks[lock]? with _ | s
      · -- a lock that is not there has no path
        rw [hlock] at hstate
        exact absurd rfl (hnil (by rw [hstate]; rfl) fd)
      · refine gains_file (by rw [hstate, hlock]; rfl) hfile fun n hn => (hopens n hn).imp id ?_
        rintro ⟨fd', hfd, hn⟩
        cases hfd
        exact hn
  · exact idle_pure _ w

/-- What a call to the host gives out is gained. -/
theorem gains_opened {call : Host.Call α} {fds : α → List Nat} {a : α} (h : call.Opens fds)
    (hexec : (host call).exec w = (.ok (.ok a), w')) :
    w.Gains w' ((fds a).map fun fd : Nat => .close fd) := by
  obtain ⟨hr, rfl⟩ := Prod.ext_iff.1 (hexec.symm.trans (exec_host call w))
  refine World.gains_host fun n hn => (h w.host n hn).imp id ?_
  rintro ⟨a', ha', fd, hfd, hn⟩
  rw [show a' = a from Except.ok.inj (ha'.symm.trans (Except.ok.inj hr).symm)] at hfd
  exact ⟨fd, hfd, hn⟩

theorem gains_refused {call : Host.Call α} {fds : α → List Nat} {e : Errno} (h : call.Opens fds)
    (hexec : (host call).exec w = (.ok (.error e), w')) : w.Gains w' [] := by
  obtain ⟨hr, rfl⟩ := Prod.ext_iff.1 (hexec.symm.trans (exec_host call w))
  have hnone : w.Gains { w with host := (call.exec w.host).2 }
      (([] : List Nat).map fun fd : Nat => .close fd) := by
    refine World.gains_host fun n hn => (h w.host n hn).imp id ?_
    rintro ⟨a, ha, -⟩
    cases ha.symm.trans (Except.ok.inj hr).symm
  exact hnone

/-- An acquisition of a debug lock is gained. -/
theorem gains_level (lock : LockId) (w : World) :
    w.Gains { w with
      locks := w.locks.modify lock fun s =>
        { s with level := s.level + 1, references := s.references + 1 } } [.leaveLock lock] where
  ledger := rfl
  program _ := rfl
  kind r hr := .inr ⟨lock, List.mem_singleton.1 hr⟩
  opened fd hfd := .inl hfd
  files j s hs := by
    refine ⟨if lock = j then { s with level := s.level + 1, references := s.references + 1 } else s,
      ?_, fun n hn => ?_⟩
    · rw [Array.getElem?_modify, hs]
      split <;> rfl
    · split <;> exact hn
  level j s s' hs hs' := by
    dsimp only at hs'
    rw [Array.getElem?_modify, hs] at hs'
    rw [List.count_singleton]
    split at hs'
    · rename_i hj
      cases hs'
      rw [hj, beq_self_eq_true, if_pos rfl]
      rfl
    · rename_i hj
      cases hs'
      rw [if_neg (by simpa using hj)]
      exact (UInt32.add_zero _).symm

end Run

end ScopedResources
