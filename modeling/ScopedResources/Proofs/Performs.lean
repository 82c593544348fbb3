/-
  Runs as sequences of elementary operations.

  Whatever operations a run is made of, and in whatever way it ends and is
  caught, what it does to its contexts it does by elementary operations, one
  after the other, and in between it is aside.

  * `Performs` relates a run to the operations that it performs, each with the
    worlds before and after it; `Performs.trail` is what they do to the ledger.
  * `Composed` are the runs that perform operations and do nothing else to the
    ledger.  All that a context offers is composed, and what is made of composed
    runs: `composed_withScope`, `composed_protect`, `composed_createHandle` are
    about arbitrary bodies.
  * `Reachable` worlds are those that such runs lead to.
-/
import ScopedResources.Proofs.Op

namespace ScopedResources

/-- An operation that was performed, with the worlds before and after it. -/
structure Step where
  before : World
  op : Op
  after : World

/-- In the world `w`, a run performs some operations, ends with `r` and leaves
    the world `w'`.  The end of the process in an operation is not counted as one. -/
inductive Performs : {α : Type} → Run α → World → List Step → Except Stop α → World → Prop
  /-- A run that leaves the ledger as it is. -/
  | aside {α : Type} {run : Run α} {w w' : World} {r : Except Stop α} :
    run.exec w = (r, w') → w'.ledger = w.ledger → Performs run w [] r w'
  /-- An operation. -/
  | op {α : Type} {run : Run α} {w w' : World} {r : Except Stop α} (o : Op) :
    discard run = o.run → run.exec w = (r, w') → r ≠ .error .abort →
    Performs run w [⟨w, o, w'⟩] r w'
  /-- A run that goes on with the result of another. -/
  | bind {α β : Type} {x : Run α} {f : α → Run β} {w w₁ w₂ : World} {a : α}
      {r : Except Stop β} {steps more : List Step} :
    Performs x w steps (.ok a) w₁ → Performs (f a) w₁ more r w₂ →
    Performs (x >>= f) w (steps ++ more) r w₂
  /-- A run that stops before it can go on. -/
  | stop {α β : Type} {x : Run α} {f : α → Run β} {w w₁ : World} {e : Stop}
      {steps : List Step} :
    Performs x w steps (.error e) w₁ → Performs (x >>= f) w steps (.error e) w₁
  /-- A run that is let end in whatever way it does. -/
  | attempt {α : Type} {x : Run α} {w w₁ : World} {r : Except Stop α} {steps : List Step} :
    Performs x w steps r w₁ → Performs (Run.attempt x) w steps (Run.attempted r) w₁

/-- The operations of a list, one after the other, lead from one ledger to another. -/
inductive Trail : Ledger → List Step → Ledger → Prop
  | nil (l : Ledger) : Trail l [] l
  | cons {s : Step} {steps : List Step} {l : Ledger} :
    s.after.ledger = s.op.step s.before.ledger → Trail s.after.ledger steps l →
    Trail s.before.ledger (s :: steps) l

theorem Trail.one {w w' : World} {o : Op} (h : w'.ledger = o.step w.ledger) :
    Trail w.ledger [⟨w, o, w'⟩] w'.ledger :=
  Trail.cons (s := ⟨w, o, w'⟩) h (.nil _)

theorem Trail.append {l₀ l₁ l₂ : Ledger} {steps more : List Step} (h : Trail l₀ steps l₁)
    (h' : Trail l₁ more l₂) : Trail l₀ (steps ++ more) l₂ := by
  induction h with
  | nil => exact h'
  | cons hs _ ih => exact .cons hs (ih h')

theorem Trail.of_append {steps more : List Step} : ∀ {l₀ l₂ : Ledger},
    Trail l₀ (steps ++ more) l₂ → ∃ l₁, Trail l₀ steps l₁ ∧ Trail l₁ more l₂ := by
  induction steps with
  | nil => exact fun h => ⟨_, .nil _, h⟩
  | cons s steps ih =>
    intro l₀ l₂ h
    cases h with
    | cons hs ht =>
      obtain ⟨l₁, h₁, h₂⟩ := ih ht
      exact ⟨l₁, .cons hs h₁, h₂⟩

/-- Where an operation stands in a trail, and what is before and after it. -/
theorem Trail.split {l l' : Ledger} {pre post : List Step} {s : Step}
    (h : Trail l (pre ++ s :: post) l') :
    Trail l pre s.before.ledger ∧ s.after.ledger = s.op.step s.before.ledger ∧
      Trail s.after.ledger post l' := by
  obtain ⟨l₁, h₁, h₂⟩ := h.of_append
  cases h₂ with
  | cons hs ht => exact ⟨h₁, hs, ht⟩

namespace Performs

variable {α β : Type} {run : Run α} {w w' : World} {r : Except Stop α} {steps : List Step}

/-- What is performed is what the run does. -/
theorem exec_eq (h : Performs run w steps r w') : run.exec w = (r, w') := by
  induction h with
  | aside h _ => exact h
  | op o _ h _ => exact h
  | bind _ _ ih ih' => rw [Run.exec_bind_ok ih, ih']
  | stop _ ih => rw [Run.exec_bind_error ih]
  | attempt _ ih => rw [Run.exec_attempt, ih]

/-- An operation that returns. -/
theorem of_ok (o : Op) (hrun : discard run = o.run) {a : α} (h : (run.exec w).1 = .ok a) :
    Performs run w [⟨w, o, (run.exec w).2⟩] (.ok a) (run.exec w).2 :=
  .op o hrun (Prod.ext h rfl) (by simp)

theorem trail (h : Performs run w steps r w') : Trail w.ledger steps w'.ledger := by
  induction h with
  | aside _ h => rw [h]; exact .nil _
  | @op α run w w' r o hrun h hr =>
    refine .one ?_
    have hw : o.run.exec w = (r.map fun _ => (), w') := by rw [← hrun, Run.exec_discard, h]
    rcases o.moves w with habort | hl
    · rw [hw] at habort
      rcases r with e | a
      · cases habort; exact absurd rfl hr
      · cases habort
    · rw [hw] at hl; exact hl
  | bind _ _ ih ih' => exact ih.append ih'
  | stop _ ih => exact ih
  | attempt _ ih => exact ih

end Performs

/-- What a run that makes a change has done to the ledger. -/
theorem Run.step_of_change {α : Type} {x : Run α} {k : ContextId} {w w' : World} (c : Change)
    {r : Except Stop α} (hrun : discard x = c.run k) (hexec : x.exec w = (r, w'))
    (hr : r ≠ .error .abort) : w'.ledger = (Op.change k c).step w.ledger := by
  have ht := (Performs.op (.change k c) hrun hexec hr).trail
  exact (@Trail.split _ _ [] [] _ ht).2.1

/-- A world that a run leads to from a world without contexts. -/
def Reachable (w : World) : Prop :=
  ∃ (α : Type) (run : Run α) (host : Host) (identity : String) (log : Option Log)
    (steps : List Step) (r : Except Stop α),
    Performs run (World.new host identity log) steps r w ∧ r ≠ .error .abort

theorem Reachable.performs {α : Type} {run : Run α} {w w' : World} {r : Except Stop α}
    {steps : List Step} (hw : Reachable w) (h : Performs run w steps r w')
    (hr : r ≠ .error .abort) : Reachable w' := by
  obtain ⟨β, run₀, host, identity, log, steps₀, r₀, h₀, hr₀⟩ := hw
  have hok : ∃ how, Run.attempted r₀ = .ok how := by
    rcases r₀ with (f | p | _) | a
    · exact ⟨_, rfl⟩
    · exact ⟨_, rfl⟩
    · exact absurd rfl hr₀
    · exact ⟨_, rfl⟩
  obtain ⟨how, hhow⟩ := hok
  have h₁ : Performs (Run.attempt run₀) (World.new host identity log) steps₀ (.ok how) w :=
    hhow ▸ h₀.attempt
  exact ⟨α, Run.attempt run₀ >>= fun _ => run, host, identity, log, steps₀ ++ steps, r,
    h₁.bind h, hr⟩

/-- The worlds between the operations of a run are reachable, if the first one is. -/
theorem Performs.reachable_of_mem {α : Type} {run : Run α} {w w' : World} {r : Except Stop α}
    {steps : List Step} (h : Performs run w steps r w') (hw : Reachable w) :
    ∀ s ∈ steps, Reachable s.before ∧ Reachable s.after := by
  induction h with
  | aside _ _ => simp
  | op o hrun h hr =>
    intro s hs
    rw [List.mem_singleton] at hs
    subst hs
    exact ⟨hw, hw.performs (.op o hrun h hr) hr⟩
  | bind hx _ ih ih' =>
    intro s hs
    rcases List.mem_append.1 hs with hs | hs
    · exact ih hw s hs
    · exact ih' (hw.performs hx (by simp)) s hs
  | stop _ ih => exact ih hw
  | attempt _ ih => exact ih hw

/-- A run that performs operations and is aside in between, unless it ends the
    process. -/
def Composed {α : Type} (run : Run α) : Prop :=
  ∀ w r w', run.exec w = (r, w') → r ≠ .error .abort → ∃ steps, Performs run w steps r w'

namespace Run

variable {α β : Type} {k : ContextId}

/-! ## Composed runs -/

theorem Aside.composed {run : Run α} (h : Aside run) : Composed run := by
  intro w r w' hexec _
  have hl := h w
  rw [hexec] at hl
  exact ⟨[], .aside hexec hl⟩

theorem composed_op {run : Run α} (o : Op) (h : discard run = o.run) : Composed run :=
  fun _ _ _ hexec hr => ⟨_, .op o h hexec hr⟩

theorem composed_pure (a : α) : Composed (pure a : Run α) :=
  (aside_pure a).composed

theorem composed_bind {x : Run α} {f : α → Run β} (hx : Composed x) (hf : ∀ a, Composed (f a)) :
    Composed (x >>= f) := by
  intro w r w' hexec hr
  rw [exec_bind] at hexec
  rcases h : x.exec w with ⟨e | a, w₁⟩
  · rw [h] at hexec; cases hexec
    obtain ⟨steps, hs⟩ := hx w _ _ h fun he => hr (by cases he; rfl)
    exact ⟨steps, .stop hs⟩
  · rw [h] at hexec
    obtain ⟨steps, hs⟩ := hx w _ _ h (by simp)
    obtain ⟨more, hm⟩ := hf a w₁ _ _ hexec hr
    exact ⟨steps ++ more, .bind hs hm⟩

theorem composed_attempt {x : Run α} (hx : Composed x) : Composed (attempt x) := by
  intro w r w' hexec hr
  rw [exec_attempt] at hexec
  rcases h : x.exec w with ⟨r₀, w₁⟩
  rw [h] at hexec; cases hexec
  obtain ⟨steps, hs⟩ := hx w _ _ h fun he => hr (by rw [he]; rfl)
  exact ⟨steps, .attempt hs⟩

theorem composed_map (f : α → β) {x : Run α} (hx : Composed x) : Composed (f <$> x) := by
  rw [← bind_pure_comp]
  exact composed_bind hx fun a => composed_pure (f a)

/-! ## Elementary operations -/

theorem composed_newContext (program : String) : Composed (newContext program) :=
  composed_op (.newContext program) rfl

theorem composed_dropContext (k : ContextId) : Composed (dropContext k) :=
  composed_op (.dropContext k) rfl

theorem composed_pushScope (k : ContextId) : Composed (pushScope k) :=
  composed_op (.change k .push) rfl

theorem composed_popScope (k : ContextId) : Composed (popScope k) :=
  composed_op (.change k .pop) rfl

theorem composed_destroyScope (k : ContextId) (s : Index) : Composed (destroyScope k s) :=
  composed_op (.change k (.destroy s)) rfl

theorem composed_leaveScope (k : ContextId) (s : Index) : Composed (leaveScope k s) :=
  composed_op (.change k (.leave s)) rfl

theorem composed_reserve (k : ContextId) : Composed (reserve k) :=
  composed_op (.change k .reserve) rfl

theorem composed_commit (k : ContextId) (record : Index) (r : Release) :
    Composed (commit k record r) :=
  composed_op (.change k (.commit record r)) rfl

theorem composed_setByte (k : ContextId) (record : Index) (position : Nat) (byte : UInt8) :
    Composed (setByte k record position byte) :=
  composed_op (.change k (.write record position byte)) rfl

theorem composed_enterCall (k : ContextId) (detail : Detail) : Composed (enterCall k detail) :=
  composed_op (.change k (.enter detail)) rfl

/-- The end of a call does not depend on what its body returned. -/
theorem discard_leaveCall (k : ContextId) (call : ProtectedCall) (how : Exit α) :
    discard (leaveCall k call how) = discard (leaveCall k call (how.map fun _ => ())) := by
  cases how with
  | returned value => rfl
  | failed f => simp [leaveCall, Exit.map, Functor.discard, map_const, apply_ite]
  | panicked p => simp [leaveCall, Exit.map, Functor.discard, map_const]

theorem composed_leaveCall (k : ContextId) (call : ProtectedCall) (how : Exit α) :
    Composed (leaveCall k call how) :=
  composed_op (.change k (.exit call (how.map fun _ => ()))) (discard_leaveCall k call how)

/-! ## Bodies -/

theorem composed_withScope {body : Run α} (k : ContextId) (hb : Composed body) :
    Composed (withScope k body) :=
  composed_bind (composed_pushScope k) fun scope => composed_bind hb fun value =>
    composed_bind (composed_leaveScope k scope) fun _ => composed_pure value

theorem composed_protect {body : Run α} (k : ContextId) (detail : Detail) (hb : Composed body) :
    Composed (protect k detail body) := by
  refine composed_bind (composed_enterCall k detail) fun entered => ?_
  split
  · exact composed_pure _
  · exact composed_bind (composed_attempt hb) fun how => composed_leaveCall k _ how

theorem composed_createHandle {acquire : Run α} (k : ContextId) (ha : Composed acquire) :
    Composed (createHandle k acquire) :=
  composed_bind (composed_pushScope k) fun _ => composed_bind ha fun _ =>
    composed_bind (composed_popScope k) fun _ => composed_pure _

theorem composed_destroyHandle (k : ContextId) (handle : Handle α) :
    Composed (destroyHandle k handle) := by
  refine composed_bind (composed_destroyScope k handle.scope) fun destroyed => ?_
  dsimp only
  split
  · exact composed_bind (aside_log _).composed fun _ => composed_pure _
  · exact composed_pure _

/-! ## Acquiring -/

theorem composed_defer (k : ContextId) (r : Release) : Composed (defer k r) :=
  composed_bind (composed_reserve k) fun record => composed_commit k record r

theorem composed_setProgramName (k : ContextId) (name : String) :
    Composed (setProgramName k name) := by
  refine composed_bind (composed_reserve k) fun record =>
    composed_bind (aside_view k _).composed fun previous => composed_bind ?_ fun _ =>
      composed_commit k record _
  refine Aside.composed fun w => Eq.trans (ledger_onContext
    (f := fun c : Context => ((), { c with program := name })) (g := id) (fun _ => rfl) w k) ?_
  exact Ledger.onHold_eq_self fun _ _ => rfl

theorem composed_alloc (k : ContextId) (size : Nat) : Composed (alloc k size) := by
  refine composed_bind (composed_reserve k) fun record => ?_
  have hcommit : Composed (do
      commit k record (.forget (.block (.zeroed size)))
      return record) :=
    composed_bind (composed_commit k record _) fun _ => composed_pure record
  dsimp only
  split
  · exact composed_bind (aside_throwing (aside_failNoMemory k)).composed fun _ => hcommit
  · exact hcommit

theorem composed_format (k : ContextId) (f : Format) : Composed (format k f) := by
  refine composed_bind (composed_reserve k) fun record => ?_
  split
  · exact composed_bind (composed_commit k record _) fun _ => composed_pure record
  · exact (aside_throwing (aside_fail _ _ _)).composed

theorem composed_duplicateText (k : ContextId) (text : String) : Composed (duplicateText k text) :=
  composed_format k _

theorem composed_granted {what : Run String} (hw : Aside what) (k : ContextId)
    (result : Except Errno α) : Composed (granted k what result) :=
  (aside_granted hw k result).composed

theorem composed_openFile (k : ContextId) (path : Bytes) (flags : Host.OpenFlags) (mode : Nat) :
    Composed (openFile k path flags mode) := by
  refine composed_bind (composed_reserve k) fun record => ?_
  have hopen : Composed (do
      let fd ← granted k (return openingText path) (← host (Host.openFile path flags mode))
      commitClose k record fd
      return fd) :=
    composed_bind (aside_host _).composed fun result =>
      composed_bind (composed_granted (aside_pure _) k result) fun fd =>
        composed_bind (composed_commit k record _) fun _ => composed_pure fd
  dsimp only
  split
  · exact composed_bind (aside_throwing (aside_fail _ _ _)).composed fun _ => hopen
  · exact hopen

theorem composed_openPipe (k : ContextId) : Composed (openPipe k) :=
  composed_bind (composed_reserve k) fun readRecord =>
    composed_bind (composed_reserve k) fun writeRecord =>
      composed_bind (aside_host _).composed fun result =>
        composed_bind (composed_granted (aside_pure _) k result) fun _ =>
          composed_bind (composed_commit k readRecord _) fun _ =>
            composed_bind (composed_commit k writeRecord _) fun _ => composed_pure _

theorem composed_duplicate (k : ContextId) (fd : Int) : Composed (duplicate k fd) :=
  composed_bind (composed_reserve k) fun record =>
    composed_bind (aside_host _).composed fun result =>
      composed_bind (composed_granted ((aside_describe fd).bind fun _ => aside_pure _) k result)
        fun copy => composed_bind (composed_commit k record _) fun _ => composed_pure copy

theorem composed_duplicateHandle (k : ContextId) (fd : Int) : Composed (duplicateHandle k fd) :=
  composed_createHandle k (composed_duplicate k fd)

theorem composed_reopenTerminal (k : ContextId) (fd : Int) : Composed (reopenTerminal k fd) :=
  composed_bind (aside_host _).composed fun result =>
    composed_bind (composed_granted ((aside_describe fd).bind fun _ => aside_pure _) k result)
      fun _ => composed_withScope k <| composed_bind (composed_openFile k _ _ _) fun _ =>
        composed_bind (aside_host _).composed fun result => composed_granted
          ((aside_describe _).bind fun _ => (aside_describe fd).bind fun _ => aside_pure _) k result

/-! ### Debug locks -/

theorem aside_lockState (lock : LockId) : Aside (lockState lock) :=
  aside_get.bind fun _ => aside_pure _

theorem aside_openLockFile (path : Bytes) : Aside (openLockFile path) := by
  unfold openLockFile
  split
  · exact aside_pure _
  · refine (aside_host _).bind fun result => ?_
    split <;> exact aside_pure _

theorem aside_lockFile (lock : LockId) : Aside (lockFile lock) := by
  refine (aside_lockState lock).bind fun state => ?_
  split
  · exact aside_pure _
  · refine (aside_openLockFile _).bind fun opened => ?_
    split
    · refine Aside.bind (aside_modify ?_) fun _ => aside_pure _
      exact fun _ => rfl
    · exact (aside_log _).bind fun _ => aside_pure _

theorem aside_takeLock (lock : LockId) (fd : Nat) : Aside (takeLock lock fd) := by
  refine (aside_host _).bind fun result => ?_
  split
  · exact aside_pure _
  · exact (aside_lockState lock).bind fun _ => aside_log _

theorem composed_acquireLock (k : ContextId) (lock : LockId) : Composed (acquireLock k lock) := by
  refine composed_bind (composed_reserve k) fun record =>
    composed_bind (aside_lockFile lock).composed fun file => ?_
  have hcommit : Composed (do
      modify fun w => { w with
        locks := w.locks.modify lock fun s =>
          { s with level := s.level + 1, references := s.references + 1 } }
      commit k record (.leaveLock lock)) := by
    refine composed_bind (Aside.composed (aside_modify ?_)) fun _ => composed_commit k record _
    exact fun _ => rfl
  refine composed_bind ((aside_lockState lock).bind fun _ => aside_pure _).composed fun level => ?_
  dsimp only
  split
  · split
    · exact composed_bind (aside_takeLock lock _).composed fun _ => hcommit
    · exact hcommit
  · exact hcommit

theorem aside_writeWithin (fd : Int) : ∀ (bound : Nat) (bytes : Bytes),
    Aside (writeWithin fd bound bytes)
  | 0, _ => aside_pure _
  | bound + 1, bytes => by
    unfold writeWithin
    split
    · exact aside_pure _
    · refine (aside_host _).bind fun result => ?_
      split
      · exact aside_pure _
      · exact aside_writeWithin fd bound _
      · exact aside_pure _

theorem aside_writeStandardError (bytes : Bytes) : Aside (writeStandardError bytes) := by
  refine (aside_writeWithin standardError bytes.length bytes).bind fun result => ?_
  split <;> exact aside_pure _

theorem composed_debugPrint (k : ContextId) (lock : LockId) (f : Format) :
    Composed (debugPrint k lock f) := by
  refine composed_withScope k <| composed_bind (composed_acquireLock k lock) fun _ =>
    composed_bind (aside_view k _).composed fun program =>
      composed_bind aside_get.composed fun w => composed_bind (composed_format k _) fun text =>
        composed_bind (aside_view k _).composed fun bytes =>
          composed_bind (aside_writeStandardError _).composed fun result => ?_
  split
  · exact composed_pure _
  · exact (aside_throwing (aside_fail _ _ _)).composed

end Run

end ScopedResources
