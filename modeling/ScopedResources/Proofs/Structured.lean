/-
  Structured runs.

  A run is structured if it ends what it has begun, scopes and calls, from the inside
  out, and gives releases only to records of its own.  Scopes that it pushes may
  stay.

  * `Structured` relates such a run to the operations that it performs.
  * `Run.Orderly` are the runs that are structured wherever they start.  What a context
    offers for acquiring is orderly, and what is made of orderly runs:
    `Run.Orderly.bind`, `orderly_withScope`, `orderly_createHandle`, `orderly_protect`.
  * A run that reserves a record and commits it later is structured as long as it does so
    once: `Change.Allowed.plain`.
-/
import ScopedResources.Proofs.Acquiring
import ScopedResources.Proofs.Persistence

namespace ScopedResources

/-- The releases that a record may be given by a body that has acquired nothing for
    it. -/
def Release.Plain : Release → Prop
  | note _ _ | dropContext _ _ | close _ | forget _ => True
  | restoreName _ | leaveLock _ => False

/-- A record that was reserved, and has not been committed since. -/
def Uncommitted (pre : List Step) (k : ContextId) (i : Index) : Prop :=
  ∃ before s after, pre = before ++ s :: after ∧ s.reserved? k = some i ∧
    ∀ s' ∈ after, ∀ r, s'.op ≠ .change k (.commit i r)

/-- The changes that a structured run makes on its own, after the steps `pre`, where the
    releases in the lists have yet to be given to records before and after the change. -/
inductive Change.Allowed (k : ContextId) (pre : List Step) :
    List Release → Change → List Release → Prop
  | push {held : List Release} : Allowed k pre held .push held
  | reserve {held : List Release} : Allowed k pre held .reserve held
  | write {held : List Release} {i : Index} {position : Nat} {byte : UInt8} :
    i ∈ issued pre k → Allowed k pre held (.write i position byte) held
  | plain {held : List Release} {i : Index} {r : Release} :
    Uncommitted pre k i → r.Plain → Allowed k pre held (.commit i r) held
  | settle {held : List Release} {i : Index} {r : Release} :
    Uncommitted pre k i → Allowed k pre (r :: held) (.commit i r) held

/-- In the world `w`, a run performs the operations `steps` in a structured way: it
    leaves the scopes and ends the calls that it has begun in the reverse order, and gives
    releases and bytes only to records that were reserved by it or by the steps `pre`
    before it. The releases in `held` and `held'` have yet to be given to records. -/
inductive Structured (k : ContextId) : {α : Type} → List Step → List Release → Run α → World →
    List Step → Except Stop α → World → List Release → Prop
  /-- A run that leaves the ledger as it is, and may acquire something. -/
  | aside {α : Type} {run : Run α} {pre : List Step} {held gained : List Release} {w w' : World}
      {r : Except Stop α} :
    run.exec w = (r, w') → w.Gains w' gained →
    Structured k pre held run w [] r w' (gained ++ held)
  | change {α : Type} {run : Run α} {pre : List Step} {held held' : List Release} {w w' : World}
      {r : Except Stop α} (c : Change) :
    c.Allowed k pre held held' → discard run = c.run k → run.exec w = (r, w') → r ≠ .error .abort →
    Structured k pre held run w [⟨w, .change k c, w'⟩] r w' held'
  /-- The name of the program is replaced, with a new record that puts it back. -/
  | rename {pre : List Step} {held : List Release} {w w₁ w₂ w' : World} {name : String}
      {c : Context} {i : Index} :
    (Run.reserve k).exec w = (.ok i, w₁) → w₁.context? k = some c →
    (Run.onContext k fun c => ((), { c with program := name })).exec w₁ = (.ok (), w₂) →
    (Run.commit k i (.restoreName c.program)).exec w₂ = (.ok (), w') →
    Structured k pre held (Run.setProgramName k name) w
      [⟨w, .change k .reserve, w₁⟩, ⟨w₂, .change k (.commit i (.restoreName c.program)), w'⟩]
      (.ok ()) w' held
  | bind {α β : Type} {x : Run α} {f : α → Run β} {pre steps more : List Step}
      {held held₁ held₂ : List Release} {w w₁ w₂ : World} {a : α} {r : Except Stop β} :
    Structured k pre held x w steps (.ok a) w₁ held₁ →
    Structured k (pre ++ steps) held₁ (f a) w₁ more r w₂ held₂ →
    Structured k pre held (x >>= f) w (steps ++ more) r w₂ held₂
  | stop {α β : Type} {x : Run α} {f : α → Run β} {pre steps : List Step}
      {held held₁ : List Release} {w w₁ : World} {e : Stop} :
    Structured k pre held x w steps (.error e) w₁ held₁ →
    Structured k pre held (x >>= f) w steps (.error e) w₁ held₁
  /-- A body in a scope of its own, which is left. -/
  | scope {α : Type} {body : Run α} {pre steps : List Step} {held held' : List Release}
      {w w₁ w₂ w' : World} {s : Index} {a : α} {done : Bool} :
    (Run.pushScope k).exec w = (.ok s, w₁) →
    Structured k (pre ++ [⟨w, .change k .push, w₁⟩]) held body w₁ steps (.ok a) w₂ held' →
    (Run.leaveScope k s).exec w₂ = (.ok done, w') →
    Structured k pre held (Run.withScope k body) w
      (⟨w, .change k .push, w₁⟩ :: (steps ++ [⟨w₂, .change k (.leave s), w'⟩])) (.ok a) w' held'
  /-- A value that is acquired in a scope of its own, which stays. -/
  | handle {α : Type} {acquire : Run α} {pre steps : List Step} {held held' : List Release}
      {w w₁ w₂ w' : World} {s left : Index} {a : α} :
    (Run.pushScope k).exec w = (.ok s, w₁) →
    Structured k (pre ++ [⟨w, .change k .push, w₁⟩]) held acquire w₁ steps (.ok a) w₂ held' →
    (Run.popScope k).exec w₂ = (.ok left, w') →
    Structured k pre held (Run.createHandle k acquire) w
      (⟨w, .change k .push, w₁⟩ :: (steps ++ [⟨w₂, .change k .pop, w'⟩])) (.ok ⟨s, a⟩) w' held'
  /-- A call inside, in whatever way its body ends. -/
  | protect {α : Type} {body : Run α} {pre steps : List Step} {held held' : List Release}
      {w w₁ w₂ w' : World} {detail : Detail} {call : ProtectedCall} {r : Except Stop α}
      {how : Exit α} {result : Except Stop (Except Report α)} :
    (Run.enterCall k detail).exec w = (.ok (.ok call), w₁) →
    Structured k (pre ++ [⟨w, .change k (.enter detail), w₁⟩]) held body w₁ steps r w₂ held' →
    Run.attempted r = .ok how →
    (Run.leaveCall k call how).exec w₂ = (result, w') → result ≠ .error .abort →
    Structured k pre held (Run.protect k detail body) w
      (⟨w, .change k (.enter detail), w₁⟩ ::
        (steps ++ [⟨w₂, .change k (.exit call (how.map fun _ => ())), w'⟩])) result w' held'

/-- What is left of a world when the name of a program is replaced. -/
theorem Run.exec_renamed {k : ContextId} {w w' : World} {name : String}
    (h : (onContext k fun c => ((), { c with program := name })).exec w = (.ok (), w')) :
    w'.ledger = w.ledger ∧ w'.host = w.host ∧ w'.locks = w.locks ∧ ∀ j, w'.context? j =
      if j = k then (w.context? j).map fun c => { c with program := name } else w.context? j := by
  rw [exec_onContext] at h
  obtain ⟨-, rfl⟩ := Prod.ext_iff.1 h
  refine ⟨?_, ?_, ?_, fun j => World.context?_onContext w k j _⟩
  · rw [ledger_onContext (g := id) (fun _ => rfl)]
    exact Ledger.onHold_eq_self fun _ _ => rfl
  · unfold World.onContext; split <;> rfl
  · unfold World.onContext; split <;> rfl

namespace Structured

variable {α β : Type} {k : ContextId} {run : Run α} {pre steps : List Step}
  {held held' : List Release} {w w' : World} {r : Except Stop α}

/-- What is performed in a structured way is performed. -/
theorem performs (h : Structured k pre held run w steps r w' held') : Performs run w steps r w' := by
  induction h with
  | aside hexec hg => exact .aside hexec hg.ledger
  | change c _ hrun hexec hr => exact .op (.change k c) hrun hexec hr
  | @rename pre held w w₁ w₂ w' name c i hreserve hc hname hcommit =>
    have hledger := (Run.exec_renamed hname).1
    exact .bind (.op (.change k .reserve) rfl hreserve (by simp)) (.bind (.aside (Run.exec_view hc _) rfl)
      (.bind (.aside hname hledger) (.op (.change k (.commit i (.restoreName c.program))) rfl hcommit
        (by simp))))
  | bind _ _ ih ih' => exact .bind ih ih'
  | stop _ ih => exact .stop ih
  | scope hpush _ hleave ih =>
    exact .bind (.op (.change k .push) rfl hpush (by simp)) (.bind ih
      (.bind (.op (.change k (.leave _)) rfl hleave (by simp)) (.aside rfl rfl)))
  | handle hpush _ hpop ih =>
    exact .bind (.op (.change k .push) rfl hpush (by simp)) (.bind ih
      (.bind (.op (.change k .pop) rfl hpop (by simp)) (.aside rfl rfl)))
  | @protect α body pre steps held held' w w₁ w₂ w' detail call r how result henter _ hhow hleave hr ih =>
    refine .bind (.op (.change k (.enter detail)) rfl henter (by simp)) ?_
    exact .bind (hhow ▸ ih.attempt) (.op (.change k (.exit call (how.map fun _ => ())))
      (Run.discard_leaveCall k call how) hleave hr)

theorem trail (h : Structured k pre held run w steps r w' held') : Trail w.ledger steps w'.ledger :=
  h.performs.trail

end Structured

/-! ## Structured operations -/

/-- A world in which a context is alive. -/
structure World.Ready (w : World) (k : ContextId) : Prop where
  sound : w.ledger.Sound
  alive : (w.context? k).isSome

variable {α β : Type} {k : ContextId} {pre : List Step} {held held' base gained : List Release}
  {w w₁ : World} {i : Index} {r : Release}

namespace World.Ready

theorem lt_count (h : w.Ready k) : k < w.ledger.count := by
  obtain ⟨c, hc⟩ := Option.isSome_iff_exists.1 h.alive
  exact Run.lt_size_of_context? hc

theorem gains (h : w.Ready k) (hg : w.Gains w₁ gained) : w₁.Ready k where
  sound := by rw [hg.ledger]; exact h.sound
  alive := by
    have hp := congrArg Option.isSome (hg.program k)
    rw [Option.isSome_map, Option.isSome_map] at hp
    rw [hp]
    exact h.alive

/-- A change that runs no release leaves the context alive. -/
theorem change (h : w.Ready k) {x : Run α} (hx : Run.Calm x) (c : Change)
    (hrun : discard x = c.run k) {r : Except Stop α} (hexec : x.exec w = (r, w₁))
    (hr : r ≠ .error .abort) : w₁.Ready k where
  sound := by
    rw [Run.step_of_change c hrun hexec hr]
    exact h.sound.step _
  alive := by
    have hp := congrArg Option.isSome ((hx w).program k)
    rw [hexec, Option.isSome_map, Option.isSome_map] at hp
    rw [hp]
    exact h.alive

/-- A context that is alive when a run has ended was alive all the time. -/
theorem performs (h : w.Ready k) {x : Run α} {f : α → Run β} {steps : List Step} {a : α}
    (hx : Performs x w steps (.ok a) w₁) (hf : Composed (f a)) {r : Except Stop β} {w' : World}
    (hexec : (f a).exec w₁ = (r, w')) (hr : r ≠ .error .abort) (hk' : (w'.context? k).isSome) :
    w₁.Ready k where
  sound := hx.trail.sound h.sound
  alive := by
    obtain ⟨more, hm⟩ := hf w₁ r w' hexec hr
    obtain ⟨c', hc'⟩ := Option.isSome_iff_exists.1 hk'
    obtain ⟨c, hc⟩ := hm.trail.context? (Nat.lt_of_lt_of_le h.lt_count hx.trail.count_le) hc'
    rw [hc]
    rfl

end World.Ready

namespace Run

/-- Where a run starts in a world in which the context is alive, what it performs is
    structured, unless it ends the process or drops the context. -/
def Admits (k : ContextId) (pre : List Step) (held : List Release) (run : Run α) (w : World)
    (held' : List Release) : Prop :=
  ∀ r w', w.Ready k → run.exec w = (r, w') → r ≠ .error .abort → (w'.context? k).isSome →
    ∃ steps, Structured k pre held run w steps r w' held'

/-- A run that is composed, and structured wherever it starts. -/
structure Orderly (k : ContextId) (run : Run α) : Prop where
  composed : Composed run
  admits : ∀ pre held w, Admits k pre held run w held

variable {x : Run α} {f : α → Run β}

/-! ### One after the other -/

/-- A run that stops does not go on. -/
theorem Admits.stop {e : Stop} {w' : World} (hx : Admits k pre held x w held)
    (hexec : x.exec w = (.error e, w')) : Admits k pre held (x >>= f) w held := by
  intro r w'' hw hbind hr hk'
  rw [exec_bind_error hexec] at hbind
  cases hbind
  obtain ⟨steps, hs⟩ := hx _ w' hw hexec (fun he => hr (by cases he; rfl)) hk'
  exact ⟨steps, .stop hs⟩

theorem Admits.gain {a : α} (hexec : x.exec w = (.ok a, w₁)) (hg : w.Gains w₁ gained)
    (hf : Admits k pre (gained ++ held) (f a) w₁ base) : Admits k pre held (x >>= f) w base := by
  intro r w' hw hbind hr hk'
  rw [exec_bind_ok hexec] at hbind
  rw [← List.append_nil pre] at hf
  obtain ⟨more, hm⟩ := hf r w' (hw.gains hg) hbind hr hk'
  exact ⟨[] ++ more, .bind (.aside hexec hg) hm⟩

theorem Idle.admits (h : Idle x) : Admits k pre held x w held := by
  intro r w' _ hexec _ _
  have hg := h w
  rw [hexec] at hg
  exact ⟨[], .aside hexec hg⟩

theorem Idle.before (hx : Idle x) (hf : ∀ a w₁, x.exec w = (.ok a, w₁) → Admits k pre held (f a) w₁ held) :
    Admits k pre held (x >>= f) w held := by
  rcases hexec : x.exec w with ⟨e | a, w₁⟩
  · exact hx.admits.stop hexec
  · have hg := hx w
    rw [hexec] at hg
    exact .gain hexec hg (hf a w₁ hexec)

theorem Orderly.bind (hx : Orderly k x) (hf : ∀ a, Orderly k (f a)) : Orderly k (x >>= f) where
  composed := composed_bind hx.composed fun a => (hf a).composed
  admits := by
    intro pre held w
    rcases hexec : x.exec w with ⟨e | a, w₁⟩
    · exact (hx.admits pre held w).stop hexec
    · intro r w' hw hbind hr hk'
      rw [exec_bind_ok hexec] at hbind
      obtain ⟨steps₀, hs₀⟩ := hx.composed w _ w₁ hexec (by simp)
      have hw₁ := hw.performs hs₀ (hf a).composed hbind hr hk'
      obtain ⟨steps, hs⟩ := hx.admits pre held w _ w₁ hw hexec (by simp) hw₁.alive
      obtain ⟨more, hm⟩ := (hf a).admits (pre ++ steps) held w₁ r w' hw₁ hbind hr hk'
      exact ⟨steps ++ more, .bind hs hm⟩

theorem Idle.orderly (h : Idle x) (hc : Aside x) : Orderly k x :=
  ⟨hc.composed, fun _ _ _ => h.admits⟩

theorem orderly_pure (a : α) : Orderly k (pure a : Run α) :=
  (idle_pure a).orderly (aside_pure a)

/-! ### Changes -/

theorem Admits.change (c : Change) (ha : c.Allowed k pre held held') (hrun : discard x = c.run k) :
    Admits k pre held x w held' :=
  fun _ _ _ hexec hr _ => ⟨_, .change c ha hrun hexec hr⟩

theorem orderly_pushScope : Orderly k (pushScope k) :=
  ⟨composed_pushScope k, fun _ _ _ => .change .push .push rfl⟩

theorem orderly_reserve : Orderly k (reserve k) :=
  ⟨composed_reserve k, fun _ _ _ => .change .reserve .reserve rfl⟩

/-- The record that a reservation gives. -/
theorem exec_reserve_ok {c : Context} (hc : w.context? k = some c)
    (hexec : (reserve k).exec w = (.ok i, w₁)) : c.tree.reserve.1 = some i := by
  obtain ⟨w₀, htree, -, -⟩ := exec_onTree_context hc Tree.reserve
  rw [reserve, exec_bind_ok htree] at hexec
  rcases hr : c.tree.reserve.1 with _ | j
  · rw [hr] at hexec
    exact absurd hexec (exec_throwing_ne_ok _ _ _ _)
  · rw [hr] at hexec
    cases hexec
    rfl

/-- What follows a reservation may commit it. -/
theorem Admits.reserving {f : Index → Run β} (hf : ∀ i w₁, w.Ready k →
    (⟨w, .change k .reserve, w₁⟩ : Step).reserved? k = some i →
    w₁.ledger = (Op.change k .reserve).step w.ledger →
    Admits k (pre ++ [⟨w, .change k .reserve, w₁⟩]) held (f i) w₁ held) :
    Admits k pre held (reserve k >>= f) w held := by
  rcases hexec : (reserve k).exec w with ⟨e | i, w₁⟩
  · exact (orderly_reserve.admits pre held w).stop hexec
  · intro r w' hw hbind hr hk'
    obtain ⟨c, hcontext⟩ := Option.isSome_iff_exists.1 hw.alive
    have hstep := step_of_change .reserve rfl hexec (by simp)
    have hreserved : (⟨w, .change k .reserve, w₁⟩ : Step).reserved? k = some i :=
      Step.reserved?_eq_some_iff.2
        ⟨rfl, c.hold, World.hold_of_context? hcontext, exec_reserve_ok hcontext hexec⟩
    rw [exec_bind_ok hexec] at hbind
    obtain ⟨more, hm⟩ := hf i w₁ hw hreserved hstep r w'
      (hw.change (calm_reserve k) .reserve rfl hexec (by simp)) hbind hr hk'
    exact ⟨_ ++ more, .bind (.change .reserve .reserve rfl hexec (by simp)) hm⟩

theorem uncommitted_reserved {s : Step} (hs : s.reserved? k = some i) :
    Uncommitted (pre ++ [s]) k i :=
  ⟨pre, s, [], rfl, hs, by simp⟩

theorem Uncommitted.snoc {s : Step} (hu : Uncommitted pre k i) (hs : ∀ r, s.op ≠ .change k (.commit i r)) :
    Uncommitted (pre ++ [s]) k i := by
  obtain ⟨before, s', after, rfl, hreserved, hafter⟩ := hu
  refine ⟨before, s', after ++ [s], by simp, hreserved, fun t ht => ?_⟩
  rcases List.mem_append.1 ht with ht | ht
  · exact hafter t ht
  · rw [List.mem_singleton.1 ht]
    exact hs

/-- A run that only fails by ending the process. -/
theorem Settles.ok {F : Ledger → Ledger} (h : Settles x F) {r : Except Stop α} {w' : World}
    (hexec : x.exec w = (r, w')) (hr : r ≠ .error .abort) : ∃ a, r = .ok a := by
  have hx := h w
  rw [hexec] at hx
  exact hx.elim (fun habort => absurd habort hr) And.left

theorem Settles.bind_ok {F : Ledger → Ledger} (h : Settles x F) {r : Except Stop β} {w' : World}
    (hexec : (x >>= f).exec w = (r, w')) (hr : r ≠ .error .abort) :
    ∃ a w₁, x.exec w = (.ok a, w₁) ∧ (f a).exec w₁ = (r, w') := by
  rcases hx : x.exec w with ⟨e | a, w₁⟩
  · rw [exec_bind_error hx] at hexec
    cases hexec
    obtain ⟨a, ha⟩ := h.ok hx fun he => hr (by cases he; rfl)
    cases ha
  · rw [exec_bind_ok hx] at hexec
    exact ⟨a, w₁, rfl, hexec⟩

/-- What follows a commit, which does not fail. -/
theorem Admits.committing {f : Unit → Run β}
    (ha : (Change.commit i r).Allowed k pre held held') (hc : Composed (f ()))
    (hf : ∀ w₁, Admits k (pre ++ [⟨w, .change k (.commit i r), w₁⟩]) held' (f ()) w₁ base) :
    Admits k pre held (commit k i r >>= f) w base := by
  intro res w' hw hbind hr hk'
  obtain ⟨a, w₁, hexec, hbind⟩ := (settles_commit k i r).bind_ok hbind hr
  have hw₁ := hw.performs (.op (.change k (.commit i r)) rfl hexec (by simp)) hc hbind hr hk'
  obtain ⟨more, hm⟩ := hf w₁ res w' hw₁ hbind hr hk'
  exact ⟨_ ++ more, .bind (.change (.commit i r) ha rfl hexec (by simp)) hm⟩

/-- A record of the run's own is committed, and that is that. -/
theorem Admits.committed (ha : (Change.commit i r).Allowed k pre held held') (a : α) :
    Admits k pre held (do commit k i r; return a) w held' :=
  .committing ha (composed_pure a) fun _ => (idle_pure a).admits

/-! ### What a context offers -/

theorem orderly_throw (e : Stop) : Orderly k (throw e : Run α) :=
  ((calm_throw e).idle (aside_throw e)).orderly (aside_throw e)

theorem admits_throwing {g : Run Failure} (hg : Calm g) (ha : Aside g) (f : α → Run β) :
    Admits k pre held (throwing g >>= f) w held :=
  (idle_throwing hg ha).before fun _ _ h => absurd h (exec_throwing_ne_ok _ _ _ _)

theorem orderly_throwing {g : Run Failure} (hg : Calm g) (ha : Aside g) :
    Orderly k (throwing g : Run α) :=
  (idle_throwing hg ha).orderly (aside_throwing ha)

theorem orderly_defer (hr : r.Plain) : Orderly k (defer k r) where
  composed := composed_defer k r
  admits _ _ _ := .reserving fun i _ _ hs _ =>
    .change (.commit i r) (.plain (uncommitted_reserved hs) hr) rfl

theorem orderly_alloc (size : Nat) : Orderly k (alloc k size) where
  composed := composed_alloc k size
  admits pre held w := .reserving fun i w₁ _ hs _ => by
    have hplain : (Release.forget (.block (.zeroed size))).Plain := trivial
    dsimp only
    split
    · exact admits_throwing (calm_failNoMemory k) (aside_failNoMemory k) _
    · exact .committed (.plain (uncommitted_reserved hs) hplain) i

theorem orderly_format (f : Format) : Orderly k (format k f) where
  composed := composed_format k f
  admits pre held w := .reserving fun i w₁ _ hs _ => by
    split
    · rename_i text _
      have hplain : (Release.forget (.text text)).Plain := trivial
      exact .committed (.plain (uncommitted_reserved hs) hplain) i
    · exact (idle_throwing (calm_fail _ _ _) (aside_fail _ _ _)).admits

theorem orderly_duplicateText (text : String) : Orderly k (duplicateText k text) :=
  orderly_format _

/-! ### Descriptors -/

/-- What follows a call to the host that gives out descriptors. -/
theorem Admits.granting {call : Host.Call α} {fds : α → List Nat} (hc : call.Opens fds)
    {what : Run String} (hw : Calm what) (ha : Aside what) {f : α → Run β}
    (hf : ∀ a w₁, Admits k pre ((fds a).map (fun fd : Nat => Release.close fd) ++ held) (f a) w₁ held) :
    Admits k pre held (do let a ← granted k what (← host call); f a) w held := by
  rcases hexec : (host call).exec w with ⟨e | result, w₁⟩
  · rw [exec_host] at hexec
    cases hexec
  · rcases result with e | a
    · exact .gain hexec (gains_refused hc hexec)
        ((idle_granted hw ha k (Except.error e)).before fun a w₂ hok =>
          absurd hok (exec_granted_error_ne_ok k what e w₁ a w₂))
    · refine .gain hexec (gains_opened hc hexec) ?_
      exact hf a w₁

theorem orderly_openFile (path : Bytes) (flags : Host.OpenFlags) (mode : Nat) :
    Orderly k (openFile k path flags mode) where
  composed := composed_openFile k path flags mode
  admits pre held w := .reserving fun i w₁ _ hs _ => by
    dsimp only
    split
    · exact admits_throwing (calm_fail _ _ _) (aside_fail _ _ _) _
    · exact .granting (Host.opens_openFile path flags mode) (calm_pure _) (aside_pure _) fun fd w₂ =>
        .committed (.settle (uncommitted_reserved hs)) fd

theorem orderly_duplicate (fd : Int) : Orderly k (duplicate k fd) where
  composed := composed_duplicate k fd
  admits _ _ _ := .reserving fun _ _ _ hs _ =>
    .granting (Host.opens_duplicate fd) ((calm_describe fd).bind fun _ => calm_pure _)
      ((aside_describe fd).bind fun _ => aside_pure _) fun copy _ =>
        .committed (.settle (uncommitted_reserved hs)) copy

/-- Two records that were reserved one after the other are not the same. -/
theorem reserved_ne {s s' : Step} {j : Index} (hs : s.reserved? k = some i)
    (hs' : s'.reserved? k = some j) (hl : s.before.ledger.Sound)
    (hstep : s.after.ledger = s.op.step s.before.ledger)
    (hstep' : s'.after.ledger = s'.op.step s'.before.ledger)
    (hthen : s'.before.ledger = s.after.ledger) : i ≠ j := by
  rintro rfl
  obtain ⟨_, h, _, hk, _, hsome⟩ := Step.reserved?_spec hs hstep hl
  obtain ⟨h', _, hk', _, hnone, _⟩ := Step.reserved?_spec hs' hstep' (by
    rw [hthen, hstep]; exact hl.step _)
  rw [hthen, hk] at hk'
  cases hk'
  rw [hsome] at hnone
  cases hnone

theorem orderly_openPipe : Orderly k (openPipe k) where
  composed := composed_openPipe k
  admits _ _ _ := .reserving fun i _ hw hs hstep => .reserving fun j _ _ hs' hstep' =>
    .granting Host.opens_openPipe (calm_pure _) (aside_pure _) fun ends _ => by
      have hij : i ≠ j := reserved_ne hs hs' hw.sound hstep hstep' rfl
      obtain ⟨readEnd, writeEnd⟩ := ends
      refine .committing (.settle (Uncommitted.snoc (uncommitted_reserved hs) (by simp))) ?_ fun _ =>
        .committed (.settle (Uncommitted.snoc (uncommitted_reserved hs') ?_)) (readEnd, writeEnd)
      · exact composed_bind (composed_commit k j _) fun _ => composed_pure _
      · intro r h
        cases h
        exact hij rfl

theorem admits_setByte {record : Index} (position : Nat) (byte : UInt8) (hr : record ∈ issued pre k) :
    Admits k pre held (setByte k record position byte) w held :=
  .change (.write record position byte) (.write hr) rfl

/-! ### Names -/

theorem orderly_setProgramName (name : String) : Orderly k (setProgramName k name) where
  composed := composed_setProgramName k name
  admits pre held w := by
    rcases hreserve : (reserve k).exec w with ⟨e | i, w₁⟩
    · exact (orderly_reserve.admits pre held w).stop hreserve
    · intro r w' hw hexec hr _
      obtain ⟨c, hc⟩ := Option.isSome_iff_exists.1
        (hw.change (calm_reserve k) .reserve rfl hreserve (by simp)).alive
      obtain ⟨w₂, hname⟩ : ∃ w₂, (onContext k fun c => ((), { c with program := name })).exec w₁ =
          (.ok (), w₂) := ⟨_, rfl⟩
      rw [setProgramName, exec_bind_ok hreserve, exec_bind_ok (exec_view hc _), exec_bind_ok hname] at hexec
      obtain ⟨a, ha⟩ := (settles_commit k i (.restoreName c.program)).ok hexec hr
      subst ha
      exact ⟨_, .rename hreserve hc hname hexec⟩

/-! ### Debug locks -/

theorem orderly_acquireLock (lock : LockId) : Orderly k (acquireLock k lock) where
  composed := composed_acquireLock k lock
  admits pre held w := .reserving fun i w₁ _ hs _ => by
    refine (idle_lockFile lock).before fun file w₂ _ => ?_
    have hlevel : Idle (lockLevel lock) :=
      ((calm_lockState lock).bind fun _ => calm_pure _).idle ((aside_lockState lock).bind fun _ => aside_pure _)
    refine hlevel.before fun level w₃ _ => ?_
    have hcommit : ∀ w₄, Admits k (pre ++ [⟨w, .change k .reserve, w₁⟩]) held (do
        modify fun w => { w with
          locks := w.locks.modify lock fun s =>
            { s with level := s.level + 1, references := s.references + 1 } }
        commit k i (.leaveLock lock)) w₄ held := fun w₄ =>
      .gain rfl (gains_level lock w₄) (.change (.commit i (.leaveLock lock))
        (.settle (uncommitted_reserved hs)) rfl)
    dsimp only
    split
    · split
      · exact ((calm_takeLock lock _).idle (aside_takeLock lock _)).before fun _ w₄ _ => hcommit w₄
      · exact hcommit w₃
    · exact hcommit w₃

/-! ### Bodies -/

/-- A body between the beginning of a scope and what follows it. -/
theorem Orderly.inScope {body : Run α} {f : Index → α → Run β} (hb : Orderly k body)
    (hf : ∀ s a, Composed (f s a))
    (hok : ∀ s a steps w₁ w₂, (pushScope k).exec w = (.ok s, w₁) →
      Structured k (pre ++ [⟨w, .change k .push, w₁⟩]) held body w₁ steps (.ok a) w₂ held →
      ∀ r w', (f s a).exec w₂ = (r, w') → r ≠ .error .abort → ∃ more,
        Structured k pre held (pushScope k >>= fun s => body >>= f s) w more r w' held) :
    Admits k pre held (pushScope k >>= fun s => body >>= f s) w held := by
  rcases hpush : (pushScope k).exec w with ⟨e | s, w₁⟩
  · exact (orderly_pushScope.admits pre held w).stop hpush
  · intro r w' hw hexec hr hk'
    have hw₁ := hw.change (calm_pushScope k) .push rfl hpush (by simp)
    have hpushed : Structured k pre held (pushScope k) w [⟨w, .change k .push, w₁⟩] (.ok s) w₁ held :=
      .change .push .push rfl hpush (by simp)
    rw [exec_bind_ok hpush] at hexec
    rcases hbody : body.exec w₁ with ⟨e | a, w₂⟩
    · rw [exec_bind_error hbody] at hexec
      cases hexec
      obtain ⟨steps, hs⟩ := hb.admits _ held w₁ _ w' hw₁ hbody (fun he => hr (by cases he; rfl)) hk'
      exact ⟨_ ++ steps, hpushed.bind (.stop hs)⟩
    · rw [exec_bind_ok hbody] at hexec
      obtain ⟨steps₀, hs₀⟩ := hb.composed w₁ _ w₂ hbody (by simp)
      have hw₂ := hw₁.performs hs₀ (hf s a) hexec hr hk'
      obtain ⟨steps, hs⟩ := hb.admits _ held w₁ _ w₂ hw₁ hbody (by simp) hw₂.alive
      exact hok s a steps w₁ w₂ hpush hs r w' hexec hr

theorem orderly_withScope {body : Run α} (hb : Orderly k body) : Orderly k (withScope k body) where
  composed := composed_withScope k hb.composed
  admits pre held w := by
    refine hb.inScope (fun s a => composed_bind (composed_leaveScope k s) fun _ => composed_pure a) ?_
    intro s a steps w₁ w₂ hpush hs r w' hexec hr
    obtain ⟨done, w₃, hleave, hexec⟩ := (settles_leaveScope k s).bind_ok (f := fun _ => pure a) hexec hr
    cases hexec
    exact ⟨_, .scope hpush hs hleave⟩

theorem orderly_createHandle {acquire : Run α} (hb : Orderly k acquire) :
    Orderly k (createHandle k acquire) where
  composed := composed_createHandle k hb.composed
  admits pre held w := by
    refine hb.inScope (fun s a => composed_bind (composed_popScope k) fun _ => composed_pure _) ?_
    intro s a steps w₁ w₂ hpush hs r w' hexec hr
    obtain ⟨left, w₃, hpop, hexec⟩ := (settles_popScope k).bind_ok
      (f := fun _ => pure (Handle.mk s a)) hexec hr
    cases hexec
    exact ⟨_, .handle hpush hs hpop⟩

/-- A call for whose boundary there is no room. -/
theorem gains_refusedCall {detail : Detail} {report : Report}
    (hexec : (enterCall k detail).exec w = (.ok (.error report), w₁)) : w.Gains w₁ [] := by
  have hstill := calm_enterCall k detail w
  have hstep := step_of_change (.enter detail) rfl hexec (by simp)
  rw [hexec] at hstill
  refine hstill.gains (hstep.trans (Ledger.onHold_eq_self fun h hk => ?_))
  rcases exec_enterCall k detail w with habort | ⟨hcall, -⟩
  · rw [hexec] at habort
    cases habort
  rw [hexec] at hcall
  have htree : (w.context k).tree = h.tree :=
    congrArg Hold.tree ((hold_context w k).trans (Ledger.answer_of_hold hk))
  rcases hp : h.tree.push with ⟨_ | b, t⟩
  · rw [Change.apply, hp]
  · rw [htree, hp] at hcall
    cases hcall

theorem exec_enterCall_ne_error {detail : Detail} {e : Stop} (he : e ≠ .abort) :
    (enterCall k detail).exec w ≠ (.error e, w₁) := by
  intro henter
  rcases exec_enterCall k detail w with habort | ⟨hcall, -⟩
  · rw [henter] at habort
    cases habort
    exact he rfl
  · rw [henter] at hcall
    split at hcall
    · cases hcall
    · obtain ⟨report, h⟩ := hcall
      cases h

theorem orderly_protect {body : Run α} (detail : Detail) (hb : Orderly k body) :
    Orderly k (protect k detail body) where
  composed := composed_protect k detail hb.composed
  admits pre held w := by
    rcases henter : (enterCall k detail).exec w with ⟨e | report | call, w₁⟩
    · intro r w' _ hexec hr _
      have hexec := (exec_bind_error henter).symm.trans hexec
      cases hexec
      refine absurd henter (exec_enterCall_ne_error fun he => hr (by rw [he]))
    · exact .gain henter (gains_refusedCall henter) (idle_pure _).admits
    · intro result w' hw hexec hr hk'
      have hw₁ := hw.change (calm_enterCall k detail) (.enter detail) rfl henter (by simp)
      have hexec : (attempt body >>= fun how => leaveCall k call how).exec w₁ = (result, w') := by
        rw [protect] at hexec
        exact (exec_bind_ok henter).symm.trans hexec
      rcases hbody : body.exec w₁ with ⟨r, w₂⟩
      have hattempt : (attempt body).exec w₁ = (attempted r, w₂) := by rw [exec_attempt, hbody]
      rcases hhow : attempted r with e | how
      · rw [hhow] at hattempt
        rw [exec_bind_error hattempt] at hexec
        cases hexec
        exact absurd (by rw [eq_abort_of_attempted hhow]) hr
      rw [hhow] at hattempt
      rw [exec_bind_ok hattempt] at hexec
      have hrun : r ≠ .error .abort := by
        rintro rfl
        cases hhow
      obtain ⟨steps₀, hs₀⟩ := hb.composed w₁ r w₂ hbody hrun
      have hattempted : Performs (attempt body) w₁ steps₀ (.ok how) w₂ := hhow ▸ hs₀.attempt
      have hw₂ := hw₁.performs (f := leaveCall k call) hattempted (composed_leaveCall k call how)
        hexec hr hk'
      obtain ⟨steps, hs⟩ := hb.admits _ held w₁ r w₂ hw₁ hbody hrun hw₂.alive
      exact ⟨_, .protect henter hs hhow hexec hr⟩

theorem orderly_debugPrint (lock : LockId) (f : Format) : Orderly k (debugPrint k lock f) := by
  refine orderly_withScope ((orderly_acquireLock lock).bind fun _ => ?_)
  refine ((idle_view k _).orderly (aside_view k _)).bind fun program => ?_
  refine ((calm_get.idle aside_get).orderly aside_get).bind fun w => ?_
  refine (orderly_format _).bind fun text => ((idle_view k _).orderly (aside_view k _)).bind fun s => ?_
  refine (((calm_writeStandardError _).idle (aside_writeStandardError _)).orderly
    (aside_writeStandardError _)).bind fun result => ?_
  split
  · exact orderly_pure _
  · exact orderly_throwing (calm_fail _ _ _) (aside_fail _ _ _)

end Run

end ScopedResources
