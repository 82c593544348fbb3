/-
  Switching whether descriptors wait.

  The mode is one bit of the status word, which all descriptors of an open file share.  Setting
  it is reading, changing and storing the word, or nothing where the mode is there already;
  either way the word is the one that it was, with the bit for the mode.

  * `BlockingMode.getLsbD_apply`: the bits of a word with a mode.  The mode is read and set as
    a part of a record is: `ofStatus_apply`, `apply_ofStatus`, `apply_apply`.
  * `World.withStatus`: a world in which an open file has another status word;
    `Run.exec_setBlockingMode`, what a switch leaves.
  * `Switches`: an open file whose mode is switched, and to which other things happen as well;
    `Switches.status?_eq`, the word that it has then.
  * `World.Refuses`: what becomes of a descriptor that is not open.
  * `mode_switched`: what switching the mode does, and what it leaves alone.
-/
import ScopedResources.Proofs.Acting
import ScopedResources.Proofs.Demands

namespace ScopedResources

/-! ## One bit of a word -/

namespace BlockingMode

variable (mode next : BlockingMode) (word : StatusWord)

/-- The position of the bit. -/
def position : ℕ := 11

theorem nonblockBit_eq : StatusWord.nonblockBit.toBitVec = BitVec.twoPow 32 position := rfl

theorem and_nonblockBit : word &&& StatusWord.nonblockBit =
    if word.toBitVec.getLsbD position then StatusWord.nonblockBit else 0 := by
  rw [← UInt32.toBitVec_inj, UInt32.toBitVec_and, nonblockBit_eq, BitVec.and_twoPow]
  split <;> rfl

theorem ofStatus_eq :
    ofStatus word = if word.toBitVec.getLsbD position then .nonblocking else .blocking := by
  rw [ofStatus, and_nonblockBit]
  rcases word.toBitVec.getLsbD position <;> rfl

/-- The bits of a word with a mode are its own, but for the one. -/
theorem getLsbD_apply {i : ℕ} (hi : i < 32) : (mode.apply word).toBitVec.getLsbD i =
    if i = position then decide (mode = .nonblocking) else word.toBitVec.getLsbD i := by
  cases mode with
  | blocking =>
    rw [apply, UInt32.toBitVec_and, UInt32.toBitVec_not, nonblockBit_eq, BitVec.getLsbD_and,
      BitVec.getLsbD_not, BitVec.getLsbD_twoPow]
    by_cases hp : i = position
    · simp [hp, position]
    · simp [hp, hi, Ne.symm hp]
  | nonblocking =>
    rw [apply, UInt32.toBitVec_or, nonblockBit_eq, BitVec.getLsbD_or, BitVec.getLsbD_twoPow]
    by_cases hp : i = position
    · simp [hp, position]
    · simp [hp, Ne.symm hp]

/-- Two words are the same whose bits are. -/
theorem word_ext {word word' : StatusWord}
    (h : ∀ i < 32, word.toBitVec.getLsbD i = word'.toBitVec.getLsbD i) : word = word' :=
  UInt32.toBitVec_inj.1 (BitVec.eq_of_getLsbD_eq fun i hi => h i hi)

@[simp] theorem ofStatus_apply : ofStatus (mode.apply word) = mode := by
  rw [ofStatus_eq, getLsbD_apply mode word (by decide), if_pos rfl]
  cases mode <;> rfl

@[simp] theorem apply_ofStatus : (ofStatus word).apply word = word := by
  refine word_ext fun i hi => ?_
  rw [getLsbD_apply _ _ hi, ofStatus_eq]
  split
  · rename_i hp
    rw [hp]
    rcases word.toBitVec.getLsbD position <;> rfl
  · rfl

@[simp] theorem apply_apply : next.apply (mode.apply word) = next.apply word := by
  refine word_ext fun i hi => ?_
  simp only [getLsbD_apply _ _ hi]
  split <;> rfl

/-- All other flags are as they were. -/
theorem apply_and_not :
    mode.apply word &&& ~~~StatusWord.nonblockBit = word &&& ~~~StatusWord.nonblockBit :=
  apply_apply mode .blocking word

end BlockingMode

/-! ## The status word of an open file -/

namespace Host

variable {h : Host} {fd : Int} {n : Nat} {file : OpenFile} {old new : StatusWord}

/-- The status word of an open file, by its number. -/
def status? (h : Host) (n : Nat) : Option StatusWord :=
  (h.openFiles[n]?).map (·.status)

/-- A host in which an open file has another status word. -/
def withStatus (h : Host) (n : Nat) (word : StatusWord) : Host :=
  { h with openFiles := h.openFiles.modify n fun file => { file with status := word } }

theorem Refers.status? (hr : h.Refers fd n file) : h.status? n = some file.status := by
  rw [Host.status?, hr.file]
  rfl

theorem status?_withStatus (hs : h.status? n = some old) (new : StatusWord) :
    (h.withStatus n new).status? n = some new := by
  obtain ⟨file, hfile, -⟩ := Option.map_eq_some_iff.1 hs
  rw [status?, withStatus, Array.getElem?_modify, if_pos rfl, hfile]
  rfl

theorem withStatus_self (hs : h.status? n = some old) : h.withStatus n old = h := by
  obtain ⟨file, hfile, rfl⟩ := Option.map_eq_some_iff.1 hs
  have hfiles : (h.openFiles.modify n fun f => { f with status := file.status }) = h.openFiles := by
    refine Array.ext_getElem? fun i => ?_
    rw [Array.getElem?_modify]
    split
    · rename_i hi
      rw [← hi, hfile]
      rfl
    · rfl
  rw [withStatus, hfiles]

theorem withStatus_withStatus (h : Host) (n : Nat) (old new : StatusWord) :
    (h.withStatus n old).withStatus n new = h.withStatus n new := by
  simp only [withStatus]
  congr 1
  refine Array.ext_getElem? fun i => ?_
  simp only [Array.getElem?_modify]
  split
  · rw [Option.map_map]
    rfl
  · rfl

/-- Descriptors refer to the open files that they referred to. -/
theorem Refers.withStatus (hr : h.Refers fd n file) (new : StatusWord) :
    (h.withStatus n new).Refers fd n { file with status := new } where
  number := hr.number
  file := by
    rw [Host.withStatus, Array.getElem?_modify, if_pos rfl, hr.file]
    rfl

/-- A duplicate is one more descriptor of the open file. -/
theorem Refers.duplicate {copy : Nat} {host : Host} (hr : h.Refers fd n file)
    (hexec : (duplicate fd).exec h = (.ok copy, host)) :
    host.Refers copy n file ∧ host.status? n = h.status? n := by
  by_cases hx : h.exhausted = true
  · obtain ⟨d, hd, -⟩ := Option.map_eq_some_iff.1 hr.number
    rw [Host.duplicate, exec_get_bind, hd] at hexec
    dsimp only at hexec
    split at hexec
    · cases hexec
    · rw [exec_giveOut, if_pos hx] at hexec
      cases hexec
  · rw [exec_duplicate hr hx] at hexec
    cases hexec
    refine ⟨refers_freeNumber hr.file true, ?_⟩
    rw [Host.status?, openFiles_place]
    rfl

theorem exec_setStatus (hr : h.Refers fd n file) (new : StatusWord) :
    (setStatus fd new).exec h = (.ok (), h.withStatus n new) := by
  have hset : h.openFiles.setIfInBounds n { file with status := new } =
      h.openFiles.modify n fun file => { file with status := new } := by
    refine Array.ext_getElem? fun i => ?_
    rw [Array.getElem?_modify]
    split
    · rename_i hi
      rw [← hi, Array.getElem?_setIfInBounds_self_of_lt hr.lt_size, hr.file]
      rfl
    · rename_i hi
      rw [Array.getElem?_setIfInBounds_ne hi]
  rw [setStatus, exec_bind, exec_opened_of_refers hr]
  dsimp only
  rw [withStatus, ← hset]
  rfl

theorem exec_status_of_none (hfile : h.openFile? fd = none) :
    (status fd).exec h = (.error Errno.badDescriptor, h) := by
  have hopened : (opened fd).exec h = (.error Errno.badDescriptor, h) := by
    rw [opened, exec_get_bind]
    rcases hd : h.descriptor? fd with _ | d
    · rfl
    · rw [openFile?, hd] at hfile
      dsimp only
      rw [show h.openFiles[d.openFile]? = none from hfile]
      rfl
  rw [status, exec_bind, hopened]

end Host

/-! ## One call -/

/-- A world in which an open file has another status word. -/
def World.withStatus (w : World) (n : Nat) (word : StatusWord) : World :=
  { w with host := w.host.withStatus n word }

section

variable {w w' w₁ w₂ : World} {k : ContextId} {c : Context} {fd : Int} {n : Nat} {file : OpenFile}
  {word : StatusWord} {mode : BlockingMode} {modes : List BlockingMode} {α β : Type}

namespace Run

/-- A switch gives the mode before, and leaves the word with the new one.  Where the mode is
    there already nothing is stored, and the word with it is the word itself. -/
theorem exec_setBlockingMode (hr : w.host.Refers fd n file) (k : ContextId) (mode : BlockingMode) :
    (setBlockingMode k fd mode).exec w =
      (.ok (.ofStatus file.status), w.withStatus n (mode.apply file.status)) := by
  rw [setBlockingMode, exec_bind_ok (exec_statusWord hr k)]
  dsimp only
  by_cases hmode : BlockingMode.ofStatus file.status = mode
  · have hsame : w.host.withStatus n (mode.apply file.status) = w.host := by
      rw [← hmode, BlockingMode.apply_ofStatus]
      exact Host.withStatus_self hr.status?
    rw [if_neg (not_not_intro hmode), World.withStatus, hsame]
    rfl
  · have hhost : (Run.host (Host.setStatus fd (mode.apply file.status))).exec w =
        (.ok (.ok ()), w.withStatus n (mode.apply file.status)) := by
      rw [exec_host, Host.exec_setStatus hr]
      rfl
    rw [if_pos hmode]
    exact exec_bind_ok hhost

/-- Setting the mode that a switch gave, right after it and through whatever descriptor, leaves
    the world as it was before the switch. -/
theorem exec_setBlockingMode_back {d : Int} {file' : OpenFile} (hr : w.host.Refers fd n file)
    (mode : BlockingMode)
    (hr' : (w.withStatus n (mode.apply file.status)).host.Refers d n file') (k : ContextId) :
    (setBlockingMode k d (.ofStatus file.status)).exec
      (w.withStatus n (mode.apply file.status)) = (.ok mode, w) := by
  have hword : file'.status = mode.apply file.status := by
    have hstatus := hr'.status?
    rw [World.withStatus, Host.status?_withStatus hr.status?] at hstatus
    exact (Option.some.inj hstatus).symm
  rw [exec_setBlockingMode hr' k, hword, BlockingMode.ofStatus_apply, BlockingMode.apply_apply,
    BlockingMode.apply_ofStatus]
  simp only [World.withStatus]
  rw [Host.withStatus_withStatus, Host.withStatus_self hr.status?]

end Run

/-! ## Descriptors that are not open -/

/-- All is as it was, but for messages and the log. -/
structure World.Unchanged (w w' : World) : Prop where
  quiet : w.Quiet w'
  context : ∀ j, w'.context? j = w.context? j

/-- What was asked of a descriptor is refused: a failure with the number of the error where a
    protected call is active, and the end of the process where none is.  Nothing changes. -/
structure World.Refuses (w : World) (c : Context) (fd : Int) (run : Run α) : Prop where
  inCall : ∀ frame, c.frame = some frame → ∃ f w', run.exec w = (.error (.failure f), w') ∧
    f.code = Errno.badDescriptor ∧
    (frame.detail = .message → f.message = some ("fcntl(" ++ w.describe fd ++ ", F_GETFL)" ++
      (": " ++ (IoError.os Errno.badDescriptor).message))) ∧ w.Unchanged w'
  outside : c.frame = none → ∃ w', run.exec w = (.error .abort, w') ∧ w.Unchanged w'

/-- What comes after a refusal is not gone on with. -/
theorem World.Refuses.bind {x : Run α} (h : w.Refuses c fd x) (f : α → Run β) :
    w.Refuses c fd (x >>= f) where
  inCall frame hframe := by
    obtain ⟨made, w', hx, hmade⟩ := h.inCall frame hframe
    exact ⟨made, w', Run.exec_bind_error hx, hmade⟩
  outside hframe := by
    obtain ⟨w', hx, hw'⟩ := h.outside hframe
    exact ⟨w', Run.exec_bind_error hx, hw'⟩

namespace Run

/-- What a failure to read the status word is about. -/
def statusText (fd : Int) : Run String :=
  return "fcntl(" ++ (← describe fd) ++ ", F_GETFL)"

theorem exec_statusText (fd : Int) (w : World) :
    (statusText fd).exec w = (.ok ("fcntl(" ++ w.describe fd ++ ", F_GETFL)"), w) := rfl

theorem quiet_statusText (fd : Int) : Quiet (statusText fd) :=
  (quiet_describe fd).bind fun _ => quiet_pure _

theorem calm_statusText (fd : Int) : Calm (statusText fd) :=
  (calm_describe fd).bind fun _ => calm_pure _

theorem aside_statusText (fd : Int) : Aside (statusText fd) :=
  (aside_describe fd).bind fun _ => aside_pure _

theorem exec_statusWord_of_none (hfile : w.host.openFile? fd = none) (k : ContextId) :
    (statusWord k fd).exec w = (granted k (statusText fd) (.error Errno.badDescriptor)).exec w := by
  have hhost : (host (Host.status fd)).exec w = (.ok (.error Errno.badDescriptor), w) := by
    rw [exec_host, Host.exec_status_of_none hfile]
  exact exec_bind_ok hhost

theorem unchanged_granted_statusText (k : ContextId) (fd : Int) (e : Errno) (w : World) :
    w.Unchanged ((granted k (statusText fd) (.error e) : Run StatusWord).exec w).2 where
  quiet := quiet_granted (quiet_statusText fd) k _ w
  context := (calm_granted (calm_statusText fd) k _ w).context?_eq
    (aside_granted (aside_statusText fd) k _ w)

/-- The status word of a descriptor that is not open cannot be read. -/
theorem refuses_statusWord (hc : w.context? k = some c) (hfile : w.host.openFile? fd = none) :
    w.Refuses c fd (statusWord k fd) := by
  have hunchanged := unchanged_granted_statusText k fd Errno.badDescriptor w
  obtain ⟨w', hw'⟩ := exists_exec_eq
    (result_granted_error hc (exec_statusText fd w) Errno.badDescriptor)
  rw [hw'] at hunchanged
  rw [← exec_statusWord_of_none hfile k] at hw'
  constructor
  · intro frame hframe
    rw [Context.failure?, hframe, Option.map_some] at hw'
    rcases frame with ⟨boundary, _ | _, depth⟩
    · exact ⟨_, w', hw', rfl, by rintro ⟨⟩, hunchanged⟩
    · exact ⟨_, w', hw', rfl, fun _ => rfl, hunchanged⟩
  · intro hframe
    rw [Context.failure?, hframe] at hw'
    exact ⟨w', hw', hunchanged⟩

theorem refuses_blockingMode (hc : w.context? k = some c) (hfile : w.host.openFile? fd = none) :
    w.Refuses c fd (blockingMode k fd) :=
  (refuses_statusWord hc hfile).bind _

theorem refuses_setBlockingMode (hc : w.context? k = some c) (hfile : w.host.openFile? fd = none)
    (mode : BlockingMode) : w.Refuses c fd (setBlockingMode k fd mode) :=
  (refuses_statusWord hc hfile).bind _

end Run

/-! ## Any number of calls -/

/-- What happens to the open file with a number.  Its mode is switched, by any context and
    through whatever descriptor refers to it by then; and the world may become another one, with
    more descriptors or fewer, as long as the status word stays.  The modes that were asked for
    are listed, the last one first. -/
inductive Switches (n : Nat) (w : World) : List BlockingMode → World → Prop
  | start : Switches n w [] w
  | switch {modes : List BlockingMode} {w₁ w₂ : World} {k : ContextId} {fd : Int} {file : OpenFile}
    {mode : BlockingMode} {r : Except Stop BlockingMode} : Switches n w modes w₁ →
    w₁.host.Refers fd n file → (Run.setBlockingMode k fd mode).exec w₁ = (r, w₂) →
    Switches n w (mode :: modes) w₂
  | meanwhile {modes : List BlockingMode} {w₁ w₂ : World} : Switches n w modes w₁ →
    w₂.host.status? n = w₁.host.status? n → Switches n w modes w₂

/-- The word with the mode that was asked for last. -/
def BlockingMode.applyLast (modes : List BlockingMode) (word : StatusWord) : StatusWord :=
  match modes with
  | [] => word
  | mode :: _ => mode.apply word

/-- The mode that was asked for last; the one of the word if none was. -/
def BlockingMode.last (modes : List BlockingMode) (word : StatusWord) : BlockingMode :=
  modes.head?.getD (.ofStatus word)

theorem BlockingMode.ofStatus_applyLast (modes : List BlockingMode) (word : StatusWord) :
    ofStatus (applyLast modes word) = last modes word := by
  cases modes with
  | nil => rfl
  | cons mode modes => exact ofStatus_apply mode word

theorem BlockingMode.applyLast_and_not (modes : List BlockingMode) (word : StatusWord) :
    applyLast modes word &&& ~~~StatusWord.nonblockBit = word &&& ~~~StatusWord.nonblockBit := by
  cases modes with
  | nil => rfl
  | cons mode modes => exact apply_and_not mode word

theorem Switches.status?_eq (h : Switches n w modes w') (hw : w.host.status? n = some word) :
    w'.host.status? n = some (BlockingMode.applyLast modes word) := by
  induction h with
  | start => exact hw
  | @switch modes w₁ w₂ k fd file mode r h hr hexec ih =>
    -- the word before has the mode before, which is replaced
    have hword : file.status = BlockingMode.applyLast modes word := by
      rw [hr.status?] at ih
      exact Option.some.inj ih
    have happly : mode.apply file.status = mode.apply word := by
      rw [hword]
      cases modes with
      | nil => rfl
      | cons previous modes => exact BlockingMode.apply_apply previous mode word
    rw [Run.exec_setBlockingMode hr k mode, happly] at hexec
    cases hexec
    exact Host.status?_withStatus ih (mode.apply word)
  | meanwhile h hsame ih => rw [hsame, ih]

/-- What holds of an open file, and of all descriptors that refer to it, where `mode` is in
    force; `word` is a status word that it had once. -/
structure World.InForce (w : World) (n : Nat) (word : StatusWord) (mode : BlockingMode) : Prop where
  /-- No flag differs but the one. -/
  flags : ∃ current, w.host.status? n = some current ∧ BlockingMode.ofStatus current = mode ∧
    current &&& ~~~StatusWord.nonblockBit = word &&& ~~~StatusWord.nonblockBit
  reported : ∀ k fd file, w.host.Refers fd n file → (Run.blockingMode k fd).exec w = (.ok mode, w)
  /-- A call gives the mode in force, and nothing changes but the status word; another call
      right after it, with the mode that was given, makes all as it was. -/
  switched : ∀ k fd file next, w.host.Refers fd n file → ∃ current,
    (Run.setBlockingMode k fd next).exec w = (.ok mode, w.withStatus n current) ∧
      ∀ j d file', (w.withStatus n current).host.Refers d n file' →
        (Run.setBlockingMode j d mode).exec (w.withStatus n current) = (.ok next, w)
  /-- A duplicate refers to the open file as well. -/
  duplicated : ∀ fd file copy host, w.host.Refers fd n file →
    (Host.duplicate fd).exec w.host = (.ok copy, host) →
      host.Refers copy n file ∧ host.status? n = w.host.status? n

theorem Switches.inForce (h : Switches n w modes w') (hw : w.host.status? n = some word) :
    w'.InForce n word (.last modes word) := by
  have hstatus := h.status?_eq hw
  have hword : ∀ {fd file}, w'.host.Refers fd n file →
      file.status = BlockingMode.applyLast modes word := fun hr =>
    Option.some.inj (hr.status?.symm.trans hstatus)
  have hmode : ∀ {fd file}, w'.host.Refers fd n file →
      BlockingMode.ofStatus file.status = .last modes word := fun hr => by
    rw [hword hr, BlockingMode.ofStatus_applyLast]
  refine ⟨?_, ?_, ?_, ?_⟩
  · exact ⟨_, hstatus, BlockingMode.ofStatus_applyLast modes word,
      BlockingMode.applyLast_and_not modes word⟩
  · intro k fd file hr
    rw [Run.exec_blockingMode hr k, hmode hr]
  · intro k fd file next hr
    refine ⟨next.apply file.status, ?_, fun j d file' hr' => ?_⟩
    · rw [Run.exec_setBlockingMode hr k next, hmode hr]
    · rw [← hmode hr]
      exact Run.exec_setBlockingMode_back hr next hr' j
  · intro fd file copy host hr hexec
    exact hr.duplicate hexec

/-- Switching the mode of an open file, by any number of calls and through all descriptors that
    refer to it, changes one bit of its status word and can be taken back; a descriptor that is
    not open is refused. -/
theorem mode_switched (n : Nat) (word : StatusWord) (modes : List BlockingMode) (w w' : World) :
    (w.host.status? n = some word → Switches n w modes w' →
      w'.InForce n word (.last modes word)) ∧
    ∀ k c fd, w.context? k = some c → w.host.openFile? fd = none →
      w.Refuses c fd (Run.blockingMode k fd) ∧
        ∀ mode, w.Refuses c fd (Run.setBlockingMode k fd mode) := by
  constructor
  · intro hw h
    exact h.inForce hw
  · intro k c fd hc hfile
    exact ⟨Run.refuses_blockingMode hc hfile, Run.refuses_setBlockingMode hc hfile⟩

end

/-- A protected call, and an open file that two descriptors refer to; what is written to it goes
    to its end. -/
def World.sharing : World :=
  { World.inCall with host := { World.inCall.host with
      openFiles := #[⟨.stream .output, StatusWord.ofAccess .readWrite ||| StatusWord.appendBit, 0,
        false⟩]
      descriptors := #[some ⟨0, false⟩, some ⟨0, true⟩] } }

/-- The theorem above where a switch through one of the descriptors is seen through the other and
    taken back; and for a descriptor that is not open. -/
theorem mode_switched_sharing : ∃ w,
    (Run.setBlockingMode 0 0 .nonblocking).exec .sharing = (.ok .blocking, w) ∧
    w.host.status? 0 = some 0xC02 ∧
    (Run.blockingMode 0 1).exec w = (.ok .nonblocking, w) ∧
    (∃ w₁, (Run.setBlockingMode 0 1 .blocking).exec w = (.ok .nonblocking, w₁) ∧
      (Run.setBlockingMode 0 0 .nonblocking).exec w₁ = (.ok .blocking, w)) ∧
    ∃ f w', (Run.blockingMode 0 7).exec .sharing = (.error (.failure f), w') ∧
      f.code = Errno.badDescriptor := by
  have hstatus : World.sharing.host.status? 0 = some 0x402 := rfl
  have hfirst : World.sharing.host.Refers 0 0 ⟨.stream .output, 0x402, 0, false⟩ := ⟨rfl, rfl⟩
  have hsecond : World.sharing.host.Refers 1 0 ⟨.stream .output, 0x402, 0, false⟩ := ⟨rfl, rfl⟩
  have hbefore := (mode_switched 0 0x402 [] .sharing .sharing).1 hstatus .start
  obtain ⟨current, hswitch, -⟩ := hbefore.switched 0 0 _ .nonblocking hfirst
  obtain ⟨w, hw⟩ : ∃ w, w = World.sharing.withStatus 0 current := ⟨_, rfl⟩
  rw [← hw] at hswitch
  have hafter := (mode_switched 0 0x402 [.nonblocking] .sharing w).1 hstatus
    (.switch .start hfirst hswitch)
  have hfirst' := hfirst.withStatus current
  have hsecond' := hsecond.withStatus current
  have hword : ((Run.setBlockingMode 0 0 .nonblocking).exec .sharing).2.host.status? 0 =
      some 0xC02 := by decide +kernel
  rw [hswitch] at hword
  rw [show World.sharing.host.withStatus 0 current = w.host by rw [hw]; rfl] at hfirst' hsecond'
  obtain ⟨current', hswitch', hback⟩ := hafter.switched 0 1 _ .blocking hsecond'
  obtain ⟨c, hc, hframe⟩ := Option.map_eq_some_iff.1
    (show (World.sharing.context? 0).map (·.frame) = some (some ⟨⟨0, 3, 0⟩, .code, 1⟩) from rfl)
  have hrefused := ((mode_switched 0 0x402 [] .sharing .sharing).2 0 c 7 hc rfl).1
  obtain ⟨f, w', hfail, hcode, -⟩ := hrefused.inCall _ hframe
  exact ⟨w, hswitch, hword, hafter.reported 0 1 _ hsecond',
    ⟨_, hswitch', hback 0 0 _ (hfirst'.withStatus current')⟩, f, w', hfail, hcode⟩

end ScopedResources
