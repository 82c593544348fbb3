/-
  Runs that are made of pieces wherever they start.

  What a context offers is put together from operations on it, from failures, and from calls
  to the host and the like.  So pieces that cover these cover all that a context offers, with
  whatever bodies they cover.  It depends on the pieces what they have to say of debug locks.

  * `Run.Inert`: a run that does nothing to contexts and locks, and does not end the process.
  * `Run.Covered`: a run is made of pieces in whatever world of a kind, and leaves such a
    world.
  * `Covering`: pieces that cover the operations, failures and inert runs, and what they cover
    then: `Covering.withScope`, `Covering.protect`, `Covering.createHandle` and
    `Covering.destroyHandle`, what acquires something, and what uses a descriptor.
-/
import ScopedResources.Proofs.Made
import ScopedResources.Proofs.Waiting

namespace ScopedResources

variable {τ α β : Type}
  {Piece : {α : Type} → Run α → World → List τ → Except Stop α → World → Prop} {P : World → Prop}

namespace Run

variable {x : Run α} {f : α → Run β}

/-! ## Inert runs -/

/-- A run that changes neither the ledger nor the debug locks, and does not end the process. -/
structure Inert (run : Run α) : Prop where
  goes : ∀ w, (run.exec w).1 ≠ .error .abort
  aside : Aside run
  locks : ∀ w, (run.exec w).2.locks = w.locks

theorem inert_pure (a : α) : Inert (pure a : Run α) :=
  ⟨fun _ => ne_abort_of_ok rfl, fun _ => rfl, fun _ => rfl⟩

theorem inert_failure (f : Failure) : Inert (throw (.failure f) : Run α) :=
  ⟨fun _ => by simp, fun _ => rfl, fun _ => rfl⟩

theorem inert_panic (p : Panic) : Inert (throw (.panic p) : Run α) :=
  ⟨fun _ => by simp, fun _ => rfl, fun _ => rfl⟩

theorem inert_get : Inert (get : Run World) :=
  ⟨fun _ => ne_abort_of_ok rfl, fun _ => rfl, fun _ => rfl⟩

theorem Inert.bind (hx : Inert x) (hf : ∀ a, Inert (f a)) : Inert (x >>= f) where
  goes w := by
    have hgoes := hx.goes w
    rw [exec_bind]
    rcases hr : x.exec w with ⟨e | a, w'⟩ <;> rw [hr] at hgoes
    · exact fun he => hgoes (by cases he; rfl)
    · exact (hf a).goes w'
  aside := hx.aside.bind fun a => (hf a).aside
  locks w := by
    have hlocks := hx.locks w
    rw [exec_bind]
    rcases hr : x.exec w with ⟨e | a, w'⟩ <;> rw [hr] at hlocks
    · exact hlocks
    · exact ((hf a).locks w').trans hlocks

theorem inert_view (k : ContextId) (f : Context → α) : Inert (view k f) :=
  inert_get.bind fun _ => inert_pure _

theorem inert_describe (fd : Int) : Inert (describe fd) :=
  inert_get.bind fun _ => inert_pure _

theorem inert_host (call : Host.Call α) : Inert (host call) :=
  ⟨fun _ => ne_abort_of_ok rfl, fun _ => rfl, fun _ => rfl⟩

theorem inert_log (e : Event) : Inert (log e) := by
  refine ⟨fun _ => ne_abort_of_ok rfl, aside_log e, fun w => ?_⟩
  show (w.record e).locks = w.locks
  unfold World.record
  dsimp only
  split
  · split
    · split <;> rfl
    · rfl
  · rfl

theorem inert_describing (before after : String) (fd : Int) :
    Inert (return before ++ (← describe fd) ++ after) :=
  (inert_describe fd).bind fun _ => inert_pure _

/-- The name of a program is no part of the ledger. -/
theorem inert_rename (k : ContextId) (name : String) :
    Inert (onContext k fun c => ((), { c with program := name })) where
  goes _ := ne_abort_of_ok rfl
  aside w := by
    show (w.onContext k fun c => ((), { c with program := name })).2.ledger = w.ledger
    rw [ledger_onContext (g := id) (fun _ => rfl)]
    exact Ledger.onHold_eq_self fun _ _ => rfl
  locks w := by
    show (w.onContext k fun c => ((), { c with program := name })).2.locks = w.locks
    unfold World.onContext
    split <;> rfl

theorem inert_checkPossible (fd : Int) : Inert (checkPossible fd) := by
  unfold checkPossible
  split
  · exact inert_panic _
  · exact inert_pure _

theorem inert_writeWithin (fd : Int) : ∀ (bound : Nat) (bytes : Bytes), Inert (writeWithin fd bound bytes)
  | 0, _ => inert_pure _
  | bound + 1, bytes => by
    unfold writeWithin
    split
    · exact inert_pure _
    · refine (inert_host _).bind fun result => ?_
      split
      · exact inert_pure _
      · exact inert_writeWithin fd bound _
      · exact inert_pure _

theorem inert_writeStandardError (bytes : Bytes) : Inert (writeStandardError bytes) := by
  refine (inert_writeWithin standardError bytes.length bytes).bind fun result => ?_
  split <;> exact inert_pure _

/-! ## Covered runs -/

/-- In whatever world of which `P` holds, a run is made of pieces, and it leaves such a
    world. -/
def Covered (Piece : {α : Type} → Run α → World → List τ → Except Stop α → World → Prop)
    (P : World → Prop) (run : Run α) : Prop :=
  ∀ w, P w → (∃ es, Made Piece run w es (run.exec w).1 (run.exec w).2) ∧ P (run.exec w).2

theorem Covered.bind (hx : Covered Piece P x) (hf : ∀ a, Covered Piece P (f a)) :
    Covered Piece P (x >>= f) := by
  intro w hw
  obtain ⟨⟨es, hmade⟩, hw'⟩ := hx w hw
  rcases h : x.exec w with ⟨e | a, w'⟩ <;> rw [h] at hmade hw'
  · rw [exec_bind_error h]
    exact ⟨⟨es, .stop hmade⟩, hw'⟩
  · obtain ⟨⟨more, hmore⟩, hw''⟩ := hf a w' hw'
    rw [exec_bind_ok h]
    exact ⟨⟨es ++ more, .bind hmade hmore⟩, hw''⟩

theorem Covered.attempt (hx : Covered Piece P x) : Covered Piece P (attempt x) := by
  intro w hw
  obtain ⟨⟨es, hmade⟩, hw'⟩ := hx w hw
  rw [exec_attempt]
  exact ⟨⟨es, .attempt hmade⟩, hw'⟩

end Run

/-- Pieces that cover inert runs, failures, and the operations that end no acquisition of a
    debug lock. -/
structure Covering (Piece : {α : Type} → Run α → World → List τ → Except Stop α → World → Prop)
    (P : World → Prop) : Prop where
  inert : ∀ {α : Type} {run : Run α}, Run.Inert run → Run.Covered Piece P run
  fail : ∀ k code f, Run.Covered Piece P (Run.fail k code f)
  failNoMemory : ∀ k, Run.Covered Piece P (Run.failNoMemory k)
  op : ∀ {α : Type} {run : Run α} (o : Op), (∀ d ∈ o.given, ∀ lock, d.release ≠ .leaveLock lock) →
    discard run = o.run → Run.Covered Piece P run

namespace Covering

open Run

variable {f : α → Run β} {body : Run α} {r : Release} {k : ContextId}

theorem pure (h : Covering Piece P) (a : α) : Covered Piece P (Pure.pure a : Run α) :=
  h.inert (inert_pure a)

/-! ### Failures -/

theorem throwing (h : Covering Piece P) {failure : Run Failure} (hf : Covered Piece P failure) :
    Covered Piece P (Run.throwing failure : Run α) :=
  hf.bind fun f => h.inert (inert_failure f)

theorem granted (h : Covering Piece P) {what : Run String} (hw : Inert what) (k : ContextId)
    (result : Except Errno α) : Covered Piece P (Run.granted k what result) := by
  unfold Run.granted
  split
  · exact h.pure _
  · exact (h.inert hw).bind fun _ => h.throwing (h.fail k _ _)

/-- A call to the host, or a failure. -/
theorem asking (h : Covering Piece P) (call : Host.Call α) {what : Run String} (hw : Inert what)
    (k : ContextId) (hf : ∀ a, Covered Piece P (f a)) :
    Covered Piece P (do f (← Run.granted k what (← Run.host call))) :=
  (h.inert (inert_host call)).bind fun result => (h.granted hw k result).bind hf

/-! ### Operations -/

theorem newContext (h : Covering Piece P) (program : String) :
    Covered Piece P (Run.newContext program) :=
  h.op (.newContext program) nofun rfl

theorem dropContext (h : Covering Piece P) (k : ContextId) : Covered Piece P (Run.dropContext k) :=
  h.op (.dropContext k) nofun rfl

theorem pushScope (h : Covering Piece P) (k : ContextId) : Covered Piece P (Run.pushScope k) :=
  h.op (.change k .push) nofun rfl

theorem popScope (h : Covering Piece P) (k : ContextId) : Covered Piece P (Run.popScope k) :=
  h.op (.change k .pop) nofun rfl

theorem destroyScope (h : Covering Piece P) (k : ContextId) (s : Index) :
    Covered Piece P (Run.destroyScope k s) :=
  h.op (.change k (.destroy s)) nofun rfl

theorem leaveScope (h : Covering Piece P) (k : ContextId) (s : Index) :
    Covered Piece P (Run.leaveScope k s) :=
  h.op (.change k (.leave s)) nofun rfl

theorem reserve (h : Covering Piece P) (k : ContextId) : Covered Piece P (Run.reserve k) :=
  h.op (.change k .reserve) nofun rfl

theorem commit (h : Covering Piece P) (k : ContextId) (record : Index)
    (hr : ∀ lock, r ≠ .leaveLock lock) : Covered Piece P (Run.commit k record r) :=
  h.op (.change k (.commit record r)) (fun d hd => by rw [List.mem_singleton.1 hd]; exact hr) rfl

theorem setByte (h : Covering Piece P) (k : ContextId) (record : Index) (position : Nat) (byte : UInt8) :
    Covered Piece P (Run.setByte k record position byte) :=
  h.op (.change k (.write record position byte)) nofun rfl

/-! ### Bodies -/

theorem withScope (h : Covering Piece P) (k : ContextId) (hb : Covered Piece P body) :
    Covered Piece P (Run.withScope k body) :=
  (h.pushScope k).bind fun scope => hb.bind fun value =>
    (h.leaveScope k scope).bind fun _ => h.pure value

theorem protect (h : Covering Piece P) (k : ContextId) (detail : Detail) (hb : Covered Piece P body) :
    Covered Piece P (Run.protect k detail body) := by
  refine (h.op (.change k (.enter detail)) nofun rfl).bind fun entered => ?_
  split
  · exact h.pure _
  · exact hb.attempt.bind fun how => h.op (.change k (.exit _ (how.map fun _ => ()))) nofun
      (discard_leaveCall k _ how)

theorem createHandle (h : Covering Piece P) (k : ContextId) (hb : Covered Piece P body) :
    Covered Piece P (Run.createHandle k body) :=
  (h.pushScope k).bind fun _ => hb.bind fun _ => (h.popScope k).bind fun _ => h.pure _

theorem destroyHandle (h : Covering Piece P) (k : ContextId) (handle : Handle α) :
    Covered Piece P (Run.destroyHandle k handle) := by
  refine (h.destroyScope k handle.scope).bind fun destroyed => ?_
  dsimp only
  split
  · exact (h.inert (inert_log _)).bind fun _ => h.pure _
  · exact h.pure _

/-! ### Acquiring -/

theorem defer (h : Covering Piece P) (k : ContextId) (hr : ∀ lock, r ≠ .leaveLock lock) :
    Covered Piece P (Run.defer k r) :=
  (h.reserve k).bind fun record => h.commit k record hr

theorem setProgramName (h : Covering Piece P) (k : ContextId) (name : String) :
    Covered Piece P (Run.setProgramName k name) :=
  (h.reserve k).bind fun record => (h.inert (inert_view k _)).bind fun _ =>
    (h.inert (inert_rename k name)).bind fun _ => h.commit k record (by simp)

theorem alloc (h : Covering Piece P) (k : ContextId) (size : Nat) :
    Covered Piece P (Run.alloc k size) := by
  refine (h.reserve k).bind fun record => ?_
  have hcommit : Covered Piece P (do
      Run.commit k record (.forget (.block (.zeroed size)))
      return record) :=
    (h.commit k record (by simp)).bind fun _ => h.pure record
  dsimp only
  split
  · exact (h.throwing (h.failNoMemory k)).bind fun _ => hcommit
  · exact hcommit

theorem format (h : Covering Piece P) (k : ContextId) (text : Format) :
    Covered Piece P (Run.format k text) := by
  refine (h.reserve k).bind fun record => ?_
  split
  · exact (h.commit k record (by simp)).bind fun _ => h.pure record
  · exact h.throwing (h.fail k _ _)

theorem duplicateText (h : Covering Piece P) (k : ContextId) (text : String) :
    Covered Piece P (Run.duplicateText k text) :=
  h.format k _

theorem openFile (h : Covering Piece P) (k : ContextId) (path : Bytes) (flags : Host.OpenFlags)
    (mode : Nat) : Covered Piece P (Run.openFile k path flags mode) := by
  refine (h.reserve k).bind fun record => ?_
  have hopen : Covered Piece P (do
      let fd ← Run.granted k (return openingText path) (← Run.host (Host.openFile path flags mode))
      commitClose k record fd
      return fd) :=
    h.asking _ (inert_pure _) k fun fd => (h.commit k record (by simp)).bind fun _ => h.pure fd
  dsimp only
  split
  · exact (h.throwing (h.fail k _ _)).bind fun _ => hopen
  · exact hopen

theorem openPipe (h : Covering Piece P) (k : ContextId) : Covered Piece P (Run.openPipe k) :=
  (h.reserve k).bind fun readRecord => (h.reserve k).bind fun writeRecord =>
    h.asking Host.openPipe (inert_pure _) k fun _ =>
      (h.commit k readRecord (by simp)).bind fun _ =>
        (h.commit k writeRecord (by simp)).bind fun _ => h.pure _

theorem duplicate (h : Covering Piece P) (k : ContextId) (fd : Int) :
    Covered Piece P (Run.duplicate k fd) :=
  (h.reserve k).bind fun record => h.asking (Host.duplicate fd) (inert_describing _ _ fd) k
    fun copy => (h.commit k record (by simp)).bind fun _ => h.pure copy

theorem duplicateHandle (h : Covering Piece P) (k : ContextId) (fd : Int) :
    Covered Piece P (Run.duplicateHandle k fd) :=
  h.createHandle k (h.duplicate k fd)

/-! ### Descriptors -/

theorem statusWord (h : Covering Piece P) (k : ContextId) (fd : Int) :
    Covered Piece P (Run.statusWord k fd) :=
  (h.inert (inert_host _)).bind fun result => h.granted (inert_describing _ _ fd) k result

theorem blockingMode (h : Covering Piece P) (k : ContextId) (fd : Int) :
    Covered Piece P (Run.blockingMode k fd) :=
  (h.statusWord k fd).bind fun _ => h.pure _

theorem setBlockingMode (h : Covering Piece P) (k : ContextId) (fd : Int) (mode : BlockingMode) :
    Covered Piece P (Run.setBlockingMode k fd mode) := by
  refine (h.statusWord k fd).bind fun word => ?_
  dsimp only
  split
  · exact h.asking _ (inert_describing _ _ fd) k fun _ => h.pure _
  · exact h.pure _

theorem readToEnd (h : Covering Piece P) (k : ContextId) (fd : Int) :
    Covered Piece P (Run.readToEnd k fd) := by
  refine (h.inert (inert_checkPossible fd)).bind fun _ =>
    h.asking _ (inert_describing _ _ fd) k fun bytes => ?_
  split
  · exact h.pure _
  · exact h.asking _ (inert_describing _ _ fd) k fun _ => h.pure _

theorem readExact (h : Covering Piece P) (k : ContextId) (fd : Int) (count : Nat) :
    Covered Piece P (Run.readExact k fd count) := by
  refine (h.inert (inert_checkPossible fd)).bind fun _ => ?_
  split
  · exact h.pure _
  refine h.asking _ (inert_describing _ _ fd) k fun bytes => ?_
  split
  · exact h.pure _
  have hrest : ∀ more : Bytes, Covered Piece P (do
      if bytes.length + more.length = count then return bytes ++ more
      Run.throwing (failIo k .shortRead (.rendered (← readingText fd) false))) := fun more => by
    split
    · exact h.pure _
    · exact (h.inert (inert_describing _ _ fd)).bind fun _ => h.throwing (h.fail k _ _)
  split
  · exact (h.pure _).bind hrest
  · exact h.asking _ (inert_describing _ _ fd) k hrest

theorem writeAll (h : Covering Piece P) (k : ContextId) (fd : Int) (bytes : Bytes) :
    Covered Piece P (Run.writeAll k fd bytes) := by
  refine (h.inert (inert_checkPossible fd)).bind fun _ =>
    (h.inert (inert_writeWithin fd _ _)).bind fun result => ?_
  split
  · exact h.pure _
  · exact (h.inert (inert_describing _ _ fd)).bind fun _ => h.throwing (h.fail k _ _)

theorem reopenTerminal (h : Covering Piece P) (k : ContextId) (fd : Int) :
    Covered Piece P (Run.reopenTerminal k fd) :=
  h.asking _ (inert_describing _ _ fd) k fun _ =>
    h.withScope k <| (h.openFile k _ _ _).bind fun _ => (h.inert (inert_host _)).bind fun result =>
      h.granted ((inert_describe _).bind fun _ => (inert_describe fd).bind fun _ => inert_pure _)
        k result

/-- Debug lines, where acquisitions of the lock are covered. -/
theorem debugPrint (h : Covering Piece P) {lock : LockId} (k : ContextId)
    (ha : Covered Piece P (acquireLock k lock)) (text : Format) :
    Covered Piece P (Run.debugPrint k lock text) := by
  refine h.withScope k <| ha.bind fun _ => (h.inert (inert_view k _)).bind fun program =>
    (h.inert inert_get).bind fun w => (h.format k _).bind fun text =>
      (h.inert (inert_view k _)).bind fun bytes =>
        (h.inert (inert_writeStandardError _)).bind fun result => ?_
  split
  · exact h.pure _
  · exact h.throwing (h.fail k _ _)

end Covering

end ScopedResources
