/-
  What runs do to the ledger.

  A run that does not end the process changes the ledger by a function of the
  ledger alone.  Calls to the host, locks, logging and failures are aside: they
  leave it as it is.

  * `Run.exec` is how a run ends and the world it leaves.
  * `Run.Aside`, `Run.Moves`, `Run.Settles`: what a run does to the ledger.
  * `settles_release`, `settles_dropContext`, `settles_destroyScope`: releases and
    teardowns do what `Ledger.release`, `Ledger.drop` and `Ledger.destroy` say.
-/
import ScopedResources.Proofs.Ledger
import ScopedResources.Run.Handle
import ScopedResources.Run.Lock
import ScopedResources.Run.Protected

namespace ScopedResources.Run

variable {α β : Type} {w w' : World} {k : ContextId}

/-- How a run ends in a world, and the world that it leaves. -/
def exec (run : Run α) (w : World) : Except Stop α × World :=
  StateT.run (ExceptT.run run) w

/-! ## Running -/

@[simp] theorem exec_pure (a : α) (w : World) : (pure a : Run α).exec w = (.ok a, w) := rfl

@[simp] theorem exec_throw (e : Stop) (w : World) : (throw e : Run α).exec w = (.error e, w) := rfl

@[simp] theorem exec_get (w : World) : (get : Run World).exec w = (.ok w, w) := rfl

@[simp] theorem exec_modify (f : World → World) (w : World) :
    (modify f : Run Unit).exec w = (.ok (), f w) := rfl

@[simp] theorem exec_modifyGet (f : World → α × World) (w : World) :
    (modifyGet f : Run α).exec w = (.ok (f w).1, (f w).2) := rfl

theorem exec_bind (x : Run α) (f : α → Run β) (w : World) :
    (x >>= f).exec w =
      match x.exec w with
      | (.ok a, w') => (f a).exec w'
      | (.error e, w') => (.error e, w') := by
  show StateT.run (ExceptT.run (x >>= f)) w = _
  rw [ExceptT.run_bind, StateT.run_bind, exec]
  rcases StateT.run x.run w with ⟨_ | a, w'⟩ <;> rfl

theorem exists_exec_eq {x : Run α} {r : Except Stop α} (h : (x.exec w).1 = r) :
    ∃ w', x.exec w = (r, w') :=
  ⟨_, Prod.ext h rfl⟩

theorem exec_bind_ok {x : Run α} {f : α → Run β} {a : α} (h : x.exec w = (.ok a, w')) :
    (x >>= f).exec w = (f a).exec w' := by
  rw [exec_bind, h]

theorem exec_bind_error {x : Run α} {f : α → Run β} {e : Stop} (h : x.exec w = (.error e, w')) :
    (x >>= f).exec w = (.error e, w') := by
  rw [exec_bind, h]

theorem exec_throwing_ne_ok (g : Run Failure) (w : World) (a : α) (w' : World) :
    (throwing g : Run α).exec w ≠ (.ok a, w') := by
  rw [throwing, exec_bind]
  rcases g.exec w with ⟨e | f, w₁⟩ <;> simp

/-- What was refused is not gone on with. -/
theorem exec_granted_error_ne_ok (k : ContextId) (what : Run String) (e : Errno) (w : World) (a : α)
    (w' : World) : (granted k what (.error e) : Run α).exec w ≠ (.ok a, w') := by
  show (what >>= fun text => throwing _).exec w ≠ _
  rw [exec_bind]
  rcases what.exec w with ⟨_ | text, w₁⟩
  · simp
  · exact exec_throwing_ne_ok _ w₁ a w'

theorem exec_map (f : α → β) (x : Run α) (w : World) :
    (f <$> x).exec w = ((x.exec w).1.map f, (x.exec w).2) := by
  rw [← bind_pure_comp, exec_bind]
  rcases x.exec w with ⟨_ | a, w'⟩ <;> rfl

theorem exec_tryCatch (x : Run α) (f : Stop → Run α) (w : World) :
    (tryCatchThe Stop x f).exec w =
      match x.exec w with
      | (.ok a, w') => (.ok a, w')
      | (.error e, w') => (f e).exec w' := by
  show StateT.run (ExceptT.run (tryCatch x f)) w = _
  rw [ExceptT.run_tryCatch, StateT.run_bind, exec]
  rcases StateT.run x.run w with ⟨_ | a, w'⟩ <;> rfl

/-- How a run ends that is let end in whatever way it does. -/
def attempted : Except Stop α → Except Stop (Exit α)
  | .ok a => .ok (.returned a)
  | .error (.failure f) => .ok (.failed f)
  | .error (.panic p) => .ok (.panicked p)
  | .error .abort => .error .abort

theorem eq_abort_of_attempted {r : Except Stop α} {e : Stop} (h : attempted r = .error e) :
    e = .abort := by
  rcases r with (f | p | _) | a <;> cases h
  rfl

theorem exec_attempt (x : Run α) (w : World) :
    (attempt x).exec w = (attempted (x.exec w).1, (x.exec w).2) := by
  rw [attempt, exec_tryCatch, exec_map]
  rcases x.exec w with ⟨(f | p | _) | a, w'⟩ <;> rfl

/-! ## Aside -/

/-- A run that leaves the ledger as it is, however it ends. -/
def Aside (run : Run α) : Prop :=
  ∀ w, (run.exec w).2.ledger = w.ledger

theorem aside_pure (a : α) : Aside (pure a : Run α) := fun _ => rfl

theorem aside_throw (e : Stop) : Aside (throw e : Run α) := fun _ => rfl

theorem aside_get : Aside (get : Run World) := fun _ => rfl

theorem aside_modify {f : World → World} (h : ∀ w, (f w).ledger = w.ledger) :
    Aside (modify f : Run Unit) := h

theorem aside_modifyGet {f : World → α × World} (h : ∀ w, (f w).2.ledger = w.ledger) :
    Aside (modifyGet f : Run α) := h

theorem Aside.bind {x : Run α} {f : α → Run β} (hx : Aside x) (hf : ∀ a, Aside (f a)) :
    Aside (x >>= f) := by
  intro w
  have h := hx w
  rw [exec_bind]
  rcases hr : x.exec w with ⟨_ | a, w'⟩
  · rw [hr] at h; exact h
  · rw [hr] at h; exact (hf a w').trans h

theorem Aside.map {x : Run α} (f : α → β) (hx : Aside x) : Aside (f <$> x) := by
  intro w
  rw [exec_map]; exact hx w

theorem aside_view (k : ContextId) (f : Context → α) : Aside (view k f) :=
  aside_get.bind fun _ => aside_pure _

theorem ledger_record (w : World) (e : Event) : (w.record e).ledger = w.ledger := by
  unfold World.record
  dsimp only
  split
  · split
    · split <;> rfl
    · rfl
  · rfl

theorem contexts_record (w : World) (e : Event) : (w.record e).contexts = w.contexts := by
  unfold World.record
  dsimp only
  split
  · split
    · split <;> rfl
    · rfl
  · rfl

theorem aside_log (e : Event) : Aside (log e) :=
  aside_modify fun w => ledger_record w e

theorem aside_host (call : Host.Call α) : Aside (host call) :=
  aside_modifyGet fun _ => rfl

theorem aside_describe (fd : Int) : Aside (describe fd) :=
  aside_get.bind fun _ => aside_pure _

/-! ### Failures -/

theorem aside_render (f : Format) : Aside (render f) := by
  cases f with
  | literal text => exact aside_pure _
  | rendered written refused =>
    refine Aside.bind (aside_modify ?_) fun _ => aside_pure _
    exact fun _ => rfl

theorem aside_activeFrame (k : ContextId) (code : Int) (f : Format) : Aside (activeFrame k code f) :=
  (aside_view k _).bind fun frame => by
    split
    · exact aside_pure _
    · exact (aside_log _).bind fun _ => aside_throw _

theorem aside_fail (k : ContextId) (code : Int) (f : Format) : Aside (fail k code f) :=
  (aside_activeFrame k code f).bind fun frame => by
    split
    · exact (aside_render f).bind fun _ => (aside_view k _).bind fun _ =>
        (aside_log _).bind fun _ => aside_pure _
    · exact (aside_log _).bind fun _ => aside_pure _

theorem aside_failNoMemory (k : ContextId) : Aside (failNoMemory k) :=
  (aside_activeFrame k _ _).bind fun frame => by
    split
    · exact (aside_view k _).bind fun _ => aside_pure _
    · exact aside_pure _

theorem aside_throwing {f : Run Failure} (hf : Aside f) : Aside (throwing f : Run α) :=
  hf.bind fun _ => aside_throw _

theorem aside_granted {what : Run String} (hw : Aside what) (k : ContextId)
    (result : Except Errno α) : Aside (granted k what result) := by
  unfold granted
  split
  · exact aside_pure _
  · exact hw.bind fun _ => aside_throwing (aside_fail _ _ _)

/-! ## Releases -/

/-- A run that ends the process, or returns and has changed the ledger by `F`. -/
def Settles (run : Run α) (F : Ledger → Ledger) : Prop :=
  ∀ w, (run.exec w).1 = .error .abort ∨
    (∃ a, (run.exec w).1 = .ok a) ∧ (run.exec w).2.ledger = F w.ledger

variable {F G : Ledger → Ledger}

theorem Aside.settles {x : Run α} (hx : Aside x) (hok : ∀ w, ∃ a, (x.exec w).1 = .ok a) :
    Settles x id :=
  fun w => .inr ⟨hok w, hx w⟩

theorem settles_pure (a : α) : Settles (pure a : Run α) id :=
  (aside_pure a).settles fun _ => ⟨_, rfl⟩

theorem settles_log (e : Event) : Settles (log e) id :=
  (aside_log e).settles fun _ => ⟨_, rfl⟩

theorem settles_host (call : Host.Call α) : Settles (host call) id :=
  (aside_host call).settles fun _ => ⟨_, rfl⟩

theorem settles_abort (F : Ledger → Ledger) : Settles (throw .abort : Run α) F :=
  fun _ => .inl rfl

theorem settles_modify {f : World → World} (h : ∀ w, (f w).ledger = F w.ledger) :
    Settles (modify f : Run Unit) F :=
  fun w => .inr ⟨⟨(), rfl⟩, h w⟩

theorem Settles.bind {x : Run α} {f : α → Run β} (hx : Settles x F) (hf : ∀ a, Settles (f a) G) :
    Settles (x >>= f) (G ∘ F) := by
  intro w
  rw [exec_bind]
  rcases hr : x.exec w with ⟨e | a, w'⟩
  · rcases hx w with h | ⟨⟨a, ha⟩, -⟩
    · rw [hr] at h; cases h; exact .inl rfl
    · rw [hr] at ha; cases ha
  · rcases hx w with h | ⟨-, hl⟩
    · rw [hr] at h; cases h
    · rw [hr] at hl
      rcases hf a w' with h | ⟨ha, hl'⟩
      · exact .inl h
      · exact .inr ⟨ha, by rw [hl', hl]; rfl⟩

/-- A run aside before another one. -/
theorem Settles.before {x : Run α} {f : α → Run β} (hx : Settles x id)
    (hf : ∀ a, Settles (f a) F) : Settles (x >>= f) F :=
  hx.bind hf

/-- A run aside after another one. -/
theorem Settles.after {x : Run α} {f : α → Run β} (hx : Settles x F)
    (hf : ∀ a, Settles (f a) id) : Settles (x >>= f) F :=
  hx.bind hf

theorem settles_dropLock (lock : LockId) : Settles (dropLock lock) id := by
  refine (aside_get.settles fun _ => ⟨_, rfl⟩).before fun w => ?_
  split
  · refine Settles.before (settles_modify ?_) fun _ => ?_
    · exact fun _ => rfl
    split
    · split
      · refine (settles_host _).before fun result => ?_
        split
        · exact settles_abort _
        · exact settles_pure _
      · exact settles_pure _
    · exact settles_pure _
  · exact settles_pure _

theorem settles_leaveLock (lock : LockId) : Settles (leaveLock lock) id := by
  refine (aside_get.settles fun _ => ⟨_, rfl⟩).before fun w => ?_
  split
  · refine Settles.before (settles_modify ?_) fun _ => ?_
    · exact fun _ => rfl
    dsimp only
    split
    · split
      · exact (settles_host _).before fun _ => settles_dropLock lock
      · exact settles_dropLock lock
    · exact settles_dropLock lock
  · exact settles_pure _

theorem settles_closeOwned (fd : Int) : Settles (closeOwned fd) id := by
  refine (settles_host _).before fun result => ?_
  split
  · exact settles_pure _
  · refine ((aside_describe fd).settles fun _ => ⟨_, rfl⟩).before fun _ => ?_
    exact (settles_log _).before fun _ => settles_abort _

/-! ### Contexts of a world -/

theorem context?_setIfInBounds (w : World) (k j : ContextId) (c : Option Context) :
    { w with contexts := w.contexts.setIfInBounds k c }.context? j =
      if j = k ∧ k < w.contexts.size then c else w.context? j := by
  unfold World.context?
  dsimp only
  by_cases hj : k = j
  · subst hj
    by_cases hk : k < w.contexts.size
    · rw [Array.getElem?_setIfInBounds_self_of_lt hk, if_pos ⟨rfl, hk⟩]; rfl
    · rw [Array.setIfInBounds_eq_of_size_le (Nat.le_of_not_lt hk), if_neg fun h => hk h.2]
  · rw [Array.getElem?_setIfInBounds_ne hj, if_neg fun h => hj h.1.symm]

theorem lt_size_of_context? {c : Context} (h : w.context? k = some c) : k < w.contexts.size := by
  by_contra hk
  unfold World.context? at h
  rw [Array.getElem?_eq_none (Nat.le_of_not_lt hk)] at h
  cases h

theorem context_eq (w : World) (k : ContextId) :
    (∃ c, w.contexts[k]? = some (some c) ∧ w.context? k = some c) ∨
      ((∀ c, w.contexts[k]? ≠ some (some c)) ∧ w.context? k = none) := by
  unfold World.context?
  rcases w.contexts[k]? with _ | _ | c
  · exact .inr ⟨(fun c h => by cases h), rfl⟩
  · exact .inr ⟨(fun c h => by cases h), rfl⟩
  · exact .inl ⟨c, rfl, rfl⟩

theorem exec_view {c : Context} (hc : w.context? k = some c) (f : Context → β) :
    (view k f).exec w = (.ok (f c), w) := by
  show (Except.ok (f (w.context k)), w) = _
  rw [World.context_of_context? hc]

theorem onContext_fst (w : World) (k : ContextId) (f : Context → α × Context) :
    (w.onContext k f).1 = (f (w.context k)).1 := by
  unfold World.onContext World.context
  rcases context_eq w k with ⟨c, hk, hc⟩ | ⟨hk, hc⟩
  · rw [hk, hc]; rfl
  · rw [hc]
    split
    · rename_i c h; exact absurd h (hk c)
    · rfl

/-- What a change of a context that is alive does to the world. -/
theorem onContext_of_context? {c : Context} (hc : w.context? k = some c)
    (f : Context → α × Context) :
    w.onContext k f =
      ((f c).1, { w with contexts := w.contexts.setIfInBounds k (some (f c).2) }) := by
  have hk : w.contexts[k]? = some (some c) := Option.join_eq_some_iff.1 hc
  unfold World.onContext
  rw [hk]
  dsimp only
  rw [Array.setIfInBounds_setIfInBounds]

/-- A change of a context changes in the ledger what it owns. -/
theorem ledger_onContext {f : Context → α × Context} {g : Hold → Hold}
    (h : ∀ c, (f c).2.hold = g c.hold) (w : World) (k : ContextId) :
    (w.onContext k f).2.ledger = w.ledger.onHold k g := by
  unfold World.onContext
  rcases context_eq w k with ⟨c, hk, hc⟩ | ⟨hk, hc⟩
  · rw [hk]
    dsimp only
    rw [Array.setIfInBounds_setIfInBounds]
    refine Ledger.ext_of (Array.size_setIfInBounds ..) (fun j => ?_) rfl
    have hlt := lt_size_of_context? hc
    rw [Ledger.hold_onHold]
    show Option.map _ (World.context? _ j) = _
    rw [context?_setIfInBounds]
    by_cases hj : j = k
    · subst hj
      rw [if_pos ⟨rfl, hlt⟩, if_pos rfl, Option.map_some, h]
      show _ = Option.map g ((w.context? j).map Context.hold)
      rw [hc]; rfl
    · rw [if_neg fun h => hj h.1, if_neg hj]; rfl
  · have hself : w.ledger.onHold k g = w.ledger := Ledger.onHold_eq_self fun x hx => by
      have : (w.context? k).map Context.hold = some x := hx
      rw [hc] at this; cases this
    split
    · rename_i c h; exact absurd h (hk c)
    · exact hself.symm

theorem ledger_take (w : World) (k : ContextId) :
    { w with contexts := w.contexts.setIfInBounds k none }.ledger = w.ledger.take k := by
  refine Ledger.ext_of (Array.size_setIfInBounds ..) (fun j => ?_) rfl
  rw [Ledger.hold_take]
  show Option.map _ (World.context? _ j) = _
  rw [context?_setIfInBounds]
  by_cases hj : j = k
  · subst hj
    rw [if_pos rfl]
    by_cases hk : j < w.contexts.size
    · rw [if_pos ⟨rfl, hk⟩]; rfl
    · rw [if_neg fun h => hk h.2]
      rcases hc : w.context? j with _ | c
      · rfl
      · exact absurd (lt_size_of_context? hc) hk
  · rw [if_neg fun h => hj h.1, if_neg hj]; rfl

/-! ### Teardowns -/

theorem exec_onContext (k : ContextId) (f : Context → α × Context) (w : World) :
    (onContext k f).exec w = (.ok (w.onContext k f).1, (w.onContext k f).2) := rfl

theorem settles_onContext {f : Context → α × Context} {g : Hold → Hold}
    (h : ∀ c, (f c).2.hold = g c.hold) (k : ContextId) :
    Settles (onContext k f) (·.onHold k g) :=
  fun w => .inr ⟨⟨_, rfl⟩, ledger_onContext h w k⟩

theorem exec_onTree (k : ContextId) (f : Tree Release → α × Tree Release) (w : World) :
    ((onTree k f).exec w).1 = .ok (f (w.context k).tree).1 ∧
      ((onTree k f).exec w).2.ledger = w.ledger.onTree k fun t => (f t).2 := by
  unfold onTree
  rw [exec_onContext, onContext_fst]
  exact ⟨rfl, ledger_onContext (fun _ => rfl) w k⟩

variable {drop : ContextId → Run Unit} {drop' : ContextId → Ledger → Ledger}

theorem settles_release (hd : ∀ k, Settles (drop k) (drop' k)) (k : ContextId)
    (due : Due Release) : Settles (release drop k due) (Ledger.release drop' due) := by
  have hnote : ∀ {F : Ledger → Ledger} {f : Unit → Run Unit}, (∀ a, Settles (f a) F) →
      Settles ((modify fun w => { w with journal.ran := due :: w.journal.ran }) >>= f)
        (F ∘ (·.note due)) := fun hf => (settles_modify fun _ => rfl).bind hf
  obtain ⟨record, r⟩ := due
  cases r with
  | note label panics =>
    refine hnote (F := id) fun _ => ?_
    dsimp only
    split
    · exact (settles_log _).before fun _ => settles_abort _
    · exact settles_pure _
  | dropContext label victim => exact hnote fun _ => hd victim
  | close fd => exact hnote (F := id) fun _ => settles_closeOwned fd
  | forget payload => exact hnote (F := id) fun _ => settles_pure _
  | restoreName previous =>
    have hself : (fun l : Ledger => l.onHold k id) = id :=
      funext fun l => Ledger.onHold_eq_self fun _ _ => rfl
    exact hnote (F := id) fun _ => hself ▸ settles_onContext (fun _ => rfl) k
  | leaveLock lock => exact hnote (F := id) fun _ => settles_leaveLock lock

theorem settles_releaseAll (hd : ∀ k, Settles (drop k) (drop' k)) (k : ContextId) :
    ∀ due : List (Due Release), Settles (releaseAll drop k due) (Ledger.releaseAll drop' due)
  | [] => settles_pure _
  | d :: more => (settles_release hd k d).bind fun _ => settles_releaseAll hd k more

theorem settles_dropWithin : ∀ (b : Nat) (k : ContextId),
    Settles (dropWithin b k) (Ledger.dropWithin b k)
  | 0, _ => settles_pure _
  | b + 1, k => fun w => by
    rw [dropWithin, exec_bind_ok (show (takeContext k).exec w = _ from rfl), Ledger.dropWithin]
    have hl := ledger_take w k
    rcases hc : w.context? k with _ | c
    · have hk : w.ledger.hold k = none := World.hold_of_context? hc
      rw [hk]
      refine .inr ⟨⟨_, rfl⟩, hl.trans (Ledger.ext_of rfl (fun j => ?_) rfl)⟩
      rw [Ledger.hold_take]
      split
      · rename_i hj; rw [hj]; exact hk.symm
      · rfl
    · have hk : w.ledger.hold k = some c.hold := World.hold_of_context? hc
      rw [hk]
      dsimp only [Context.hold]
      rw [← hl, Ledger.dueOf]
      rcases c.tree.destroy c.tree.top with ⟨_ | teardown, t⟩
      · exact .inr ⟨⟨_, rfl⟩, rfl⟩
      · exact ((settles_releaseAll (settles_dropWithin b) k _).after fun _ => settles_log _) _

theorem settles_dropContext (k : ContextId) : Settles (dropContext k) (Ledger.drop k) :=
  fun w => settles_dropWithin w.contexts.size k w

theorem hold_context (w : World) (k : ContextId) : (w.context k).hold = w.ledger.answer k := by
  rw [World.context, Ledger.answer]
  show _ = ((w.context? k).map Context.hold).getD _
  rcases w.context? k with _ | c <;> rfl

theorem settles_destroyScope (k : ContextId) (s : Index) :
    Settles (destroyScope k s) (·.destroy k s) := by
  intro w
  obtain ⟨hr, hl⟩ := exec_onTree k (·.destroy s) w
  show _ ∨ _ ∧ _ = w.ledger.destroy k s
  rw [destroyScope, exec_bind_ok (Prod.ext hr rfl), Ledger.destroy, ← hold_context, ← hl,
    Ledger.dueOf]
  show _ ∨ _ ∧ _ = Ledger.releaseAll _ (Option.getD (Option.map _
    ((w.context k).tree.destroy s).1) []) _
  rcases ((w.context k).tree.destroy s).1 with _ | teardown
  · exact .inr ⟨⟨_, rfl⟩, rfl⟩
  · exact ((settles_releaseAll settles_dropContext k _).after fun _ =>
      (settles_log _).before fun _ => settles_pure _) _

/-! ## Other runs -/

/-- A run that ends the process, or has changed the ledger by `F` however it ends. -/
def Moves (run : Run α) (F : Ledger → Ledger) : Prop :=
  ∀ w, (run.exec w).1 = .error .abort ∨ (run.exec w).2.ledger = F w.ledger

theorem Moves.congr {x : Run α} (hx : Moves x F) (h : F = G) : Moves x G :=
  h ▸ hx

theorem Settles.moves {x : Run α} (hx : Settles x F) : Moves x F :=
  fun w => (hx w).imp id And.right

theorem Aside.moves {x : Run α} (hx : Aside x) : Moves x id :=
  fun w => .inr (hx w)

theorem Settles.then {x : Run α} {f : α → Run β} (hx : Settles x F) (hf : ∀ a, Moves (f a) G) :
    Moves (x >>= f) (G ∘ F) := by
  intro w
  rw [exec_bind]
  rcases hr : x.exec w with ⟨e | a, w'⟩
  · rcases hx w with h | ⟨⟨a, ha⟩, -⟩
    · rw [hr] at h; cases h; exact .inl rfl
    · rw [hr] at ha; cases ha
  · rcases hx w with h | ⟨-, hl⟩
    · rw [hr] at h; cases h
    · rw [hr] at hl
      exact (hf a w').imp id fun hl' => by rw [hl', hl]; rfl

theorem exec_discard (x : Run α) (w : World) :
    (discard x).exec w = ((x.exec w).1.map fun _ => (), (x.exec w).2) :=
  exec_map _ x w

/-- A run that is another one but for its result. -/
theorem exec_of_discard {x : Run α} {y : Run Unit} {r : Except Stop α} {w w' : World}
    (hrun : discard x = y) (hexec : x.exec w = (r, w')) : y.exec w = (r.map fun _ => (), w') := by
  rw [← hrun, exec_discard, hexec]

theorem Moves.discard {x : Run α} (hx : Moves x F) : Moves (discard x) F := by
  intro w
  rw [exec_discard]
  refine (hx w).imp (fun h => ?_) id
  rw [h]; rfl

end ScopedResources.Run
