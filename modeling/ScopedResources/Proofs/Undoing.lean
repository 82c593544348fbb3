/-
  What releases do outside of the ledger.

  The ledger leaves out the debug locks, the descriptors and the names of the
  programs.  Running releases gives acquisitions of locks back, closes descriptors
  and restores names, and leaves all else of these as it is.

  * `World.Still`: none of them has changed; `Run.Calm` are the runs that leave them
    alone.
  * `World.Released`: what has changed where some releases were run.
  * `undoes_releaseAll`, `undoes_dropContext`: running releases does that, and
    `Change.released` says it of every change in a context.
-/
import ScopedResources.Proofs.Performs

namespace ScopedResources

/-- The name that a release puts back. -/
def Release.name? : Release → Option String
  | restoreName previous => some previous
  | note _ _ | dropContext _ _ | close _ | forget _ | leaveLock _ => none

/-- The names that releases put back, in order. -/
def restored (due : List (Due Release)) : List String :=
  due.filterMap (·.release.name?)

/-- How many acquisitions of a lock releases end. -/
def leaves (lock : LockId) (due : List (Due Release)) : Nat :=
  due.countP fun d => d.release = .leaveLock lock

theorem restored_append (due more : List (Due Release)) :
    restored (due ++ more) = restored due ++ restored more :=
  List.filterMap_append

theorem leaves_append (lock : LockId) (due more : List (Due Release)) :
    leaves lock (due ++ more) = leaves lock due + leaves lock more :=
  List.countP_append

theorem getLastD_append {α : Type} (l m : List α) (a : α) :
    (l ++ m).getLastD a = m.getLastD (l.getLastD a) := by
  induction l generalizing a with
  | nil => rfl
  | cons b l ih => simp only [List.cons_append, List.getLastD_cons, ih]

/-! ## Calls to the host -/

namespace Host

variable {α β : Type}

/-- How a call to the host ends, and the host that it leaves. -/
def Call.exec (call : Call α) (h : Host) : Except Errno α × Host :=
  StateT.run (ExceptT.run call) h

theorem exec_bind (x : Call α) (f : α → Call β) (h : Host) :
    (x >>= f).exec h =
      match x.exec h with
      | (.ok a, h') => (f a).exec h'
      | (.error e, h') => (.error e, h') := by
  show StateT.run (ExceptT.run (x >>= f)) h = _
  rw [ExceptT.run_bind, StateT.run_bind, Call.exec]
  rcases StateT.run x.run h with ⟨_ | a, h'⟩ <;> rfl

theorem exec_get_bind (f : Host → Call β) (h : Host) : (get >>= f).exec h = (f h).exec h := rfl

theorem exec_close (h : Host) (fd : Int) :
    (close fd).exec h =
      if h.isOpen fd = true then
        (.ok (), { h with descriptors := h.descriptors.setIfInBounds fd.toNat none })
      else (.error Errno.badDescriptor, h) := by
  rw [close, exec_bind]
  show Call.exec (if h.isOpen fd = true then _ else _) h = _
  split <;> rfl

/-- What is open after one descriptor was closed. -/
theorem isOpen_closed (h : Host) (fd n : Int)
    (ho : { h with descriptors := h.descriptors.setIfInBounds fd.toNat none }.isOpen n = true) :
    h.isOpen n = true ∧ (h.isOpen fd = true → n ≠ fd) := by
  unfold isOpen descriptor? at ho ⊢
  by_cases hn : 0 ≤ n
  · rw [if_pos hn] at ho ⊢
    dsimp only at ho
    rw [Array.getElem?_setIfInBounds] at ho
    split at ho
    · split at ho <;> cases ho
    · rename_i hne
      refine ⟨ho, ?_⟩
      rintro - rfl
      exact hne rfl
  · rw [if_neg hn] at ho
    cases ho

/-- A call that gives out no descriptor and closes none. -/
def Call.Keeps (call : Call α) : Prop :=
  ∀ h, (call.exec h).2.descriptors = h.descriptors

theorem Call.Keeps.bind {x : Call α} {f : α → Call β} (hx : x.Keeps) (hf : ∀ a, (f a).Keeps) :
    (x >>= f).Keeps := by
  intro h
  have hk := hx h
  rw [exec_bind]
  rcases hr : x.exec h with ⟨_ | a, h'⟩
  · rw [hr] at hk; exact hk
  · rw [hr] at hk; exact (hf a h').trans hk

theorem keeps_pure (a : α) : (pure a : Call α).Keeps := fun _ => rfl

theorem keeps_throw (e : Errno) : (throw e : Call α).Keeps := fun _ => rfl

theorem keeps_get : (get : Call Host).Keeps := fun _ => rfl

theorem keeps_opened (fd : Int) : (opened fd).Keeps := by
  refine keeps_get.bind fun h => ?_
  split
  · split
    · exact keeps_pure _
    · exact keeps_throw _
  · exact keeps_throw _

theorem keeps_update (id : Nat) (file : OpenFile) : (update id file).Keeps := fun _ => rfl

theorem keeps_unlock (fd : Int) : (unlock fd).Keeps :=
  (keeps_opened fd).bind fun _ => keeps_update _ _

end Host

/-! ## Nothing has changed -/

variable {α β : Type} {w w' w'' : World} {k j : ContextId}

/-- The locks, the descriptors, the names of the programs, and what was released are
    as they were. -/
structure World.Still (w w' : World) : Prop where
  locks : w'.locks = w.locks
  descriptors : w'.host.descriptors = w.host.descriptors
  ran : w'.journal.ran = w.journal.ran
  program : ∀ j, (w'.context? j).map (·.program) = (w.context? j).map (·.program)

theorem World.Still.refl (w : World) : w.Still w :=
  ⟨rfl, rfl, rfl, fun _ => rfl⟩

theorem World.Still.trans (h : w.Still w') (h' : w'.Still w'') : w.Still w'' :=
  ⟨h'.locks.trans h.locks, h'.descriptors.trans h.descriptors, h'.ran.trans h.ran,
    fun j => (h'.program j).trans (h.program j)⟩

theorem World.context?_onContext (w : World) (k j : ContextId) (f : Context → α × Context) :
    (w.onContext k f).2.context? j =
      if j = k then (w.context? j).map fun c => (f c).2 else w.context? j := by
  unfold World.onContext
  rcases Run.context_eq w k with ⟨c, hk, hc⟩ | ⟨hk, hc⟩
  · rw [hk]
    dsimp only
    rw [Array.setIfInBounds_setIfInBounds, Run.context?_setIfInBounds]
    by_cases hj : j = k
    · subst hj
      rw [if_pos ⟨rfl, Run.lt_size_of_context? hc⟩, if_pos rfl, hc, Option.map_some]
    · rw [if_neg fun h => hj h.1, if_neg hj]
  · have hself : w.context? j = if j = k then (w.context? j).map fun c => (f c).2
        else w.context? j := by
      split
      · rename_i hj; rw [hj, hc, Option.map_none]
      · rfl
    split
    · rename_i c h; exact absurd h (hk c)
    · exact hself

namespace Run

/-- A run that leaves the locks, the descriptors and the names alone, however it ends. -/
def Calm (run : Run α) : Prop :=
  ∀ w : World, w.Still (run.exec w).2

theorem calm_pure (a : α) : Calm (pure a : Run α) := fun w => .refl w

theorem calm_throw (e : Stop) : Calm (throw e : Run α) := fun w => .refl w

theorem calm_get : Calm (get : Run World) := fun w => .refl w

theorem Calm.bind {x : Run α} {f : α → Run β} (hx : Calm x) (hf : ∀ a, Calm (f a)) :
    Calm (x >>= f) := by
  intro w
  have h := hx w
  rw [exec_bind]
  rcases hr : x.exec w with ⟨_ | a, w'⟩
  · rw [hr] at h; exact h
  · rw [hr] at h; exact h.trans (hf a w')

theorem calm_view (k : ContextId) (f : Context → α) : Calm (view k f) :=
  calm_get.bind fun _ => calm_pure _

theorem calm_describe (fd : Int) : Calm (describe fd) :=
  calm_get.bind fun _ => calm_pure _

theorem still_record (w : World) (e : Event) : w.Still (w.record e) := by
  unfold World.record
  dsimp only
  split
  · split
    · split <;> exact ⟨rfl, rfl, rfl, fun _ => rfl⟩
    · exact ⟨rfl, rfl, rfl, fun _ => rfl⟩
  · exact ⟨rfl, rfl, rfl, fun _ => rfl⟩

theorem calm_log (e : Event) : Calm (log e) := fun w => still_record w e

theorem calm_host {call : Host.Call α} (h : call.Keeps) : Calm (host call) :=
  fun w => ⟨rfl, h w.host, rfl, fun _ => rfl⟩

theorem calm_onContext {f : Context → α × Context} (h : ∀ c, (f c).2.program = c.program)
    (k : ContextId) : Calm (onContext k f) := by
  intro w
  have hcontext := World.context?_onContext w k (f := f)
  rw [exec_onContext]
  refine ⟨?_, ?_, ?_, fun j => ?_⟩
  · unfold World.onContext; split <;> rfl
  · unfold World.onContext; split <;> rfl
  · unfold World.onContext; split <;> rfl
  · rw [hcontext j]
    split
    · rw [Option.map_map]
      exact congrArg (Option.map · _) (funext h)
    · rfl

theorem calm_onTree (k : ContextId) (f : Tree Release → α × Tree Release) : Calm (onTree k f) :=
  calm_onContext (fun _ => rfl) k

/-! ### Failures -/

theorem calm_render (f : Format) : Calm (render f) := by
  cases f with
  | literal text => exact calm_pure _
  | rendered written refused => exact fun w => ⟨rfl, rfl, rfl, fun _ => rfl⟩

theorem calm_activeFrame (k : ContextId) (code : Int) (f : Format) : Calm (activeFrame k code f) :=
  (calm_view k _).bind fun frame => by
    split
    · exact calm_pure _
    · exact (calm_log _).bind fun _ => calm_throw _

theorem calm_fail (k : ContextId) (code : Int) (f : Format) : Calm (fail k code f) :=
  (calm_activeFrame k code f).bind fun frame => by
    split
    · exact (calm_render f).bind fun _ => (calm_view k _).bind fun _ =>
        (calm_log _).bind fun _ => calm_pure _
    · exact (calm_log _).bind fun _ => calm_pure _

theorem calm_failNoMemory (k : ContextId) : Calm (failNoMemory k) :=
  (calm_activeFrame k _ _).bind fun frame => by
    split
    · exact (calm_view k _).bind fun _ => calm_pure _
    · exact calm_pure _

theorem calm_throwing {f : Run Failure} (hf : Calm f) : Calm (throwing f : Run α) :=
  hf.bind fun _ => calm_throw _

theorem calm_granted {what : Run String} (hw : Calm what) (k : ContextId)
    (result : Except Errno α) : Calm (granted k what result) := by
  unfold granted
  split
  · exact calm_pure _
  · exact hw.bind fun _ => calm_throwing (calm_fail _ _ _)

/-! ### Changes that release nothing -/

theorem calm_pushScope? (k : ContextId) : Calm (pushScope? k) := by
  refine (calm_view k _).bind fun parent => (calm_onTree k _).bind fun pushed => ?_
  split
  · exact (calm_log _).bind fun _ => calm_pure _
  · exact calm_pure _

theorem calm_pushScope (k : ContextId) : Calm (pushScope k) := by
  refine (calm_pushScope? k).bind fun pushed => ?_
  split
  · exact calm_pure _
  · exact calm_throwing (calm_failNoMemory k)

theorem calm_popScope (k : ContextId) : Calm (popScope k) := by
  refine (calm_view k _).bind fun scope => (calm_view k _).bind fun parent => ?_
  split
  · exact (calm_onTree k _).bind fun _ => (calm_log _).bind fun _ => calm_pure _
  · exact calm_pure _

theorem calm_reserve (k : ContextId) : Calm (reserve k) := by
  refine (calm_onTree k _).bind fun record => ?_
  split
  · exact calm_pure _
  · exact calm_throwing (calm_failNoMemory k)

theorem calm_setByte (k : ContextId) (record : Index) (position : Nat) (byte : UInt8) :
    Calm (setByte k record position byte) := by
  refine (calm_view k _).bind fun block => ?_
  split
  · exact (calm_onTree k _).bind fun _ => calm_pure _
  · exact calm_pure _

theorem calm_enterCall (k : ContextId) (detail : Detail) : Calm (enterCall k detail) := by
  refine (calm_view k _).bind fun resume => (calm_pushScope? k).bind fun pushed => ?_
  split
  · exact (calm_failNoMemory k).bind fun _ => calm_pure _
  · refine (calm_view k _).bind fun outer => (calm_view k _).bind fun depth => ?_
    refine Calm.bind (calm_onContext ?_ k) fun _ => (calm_log _).bind fun _ => calm_pure _
    exact fun _ => rfl

end Run

/-! ## What releases do -/

/-- What running the releases `new` has done, of which those in `due` were due in the
    context `k`. -/
structure World.Released (k : ContextId) (w w' : World) (due new : List (Due Release)) : Prop where
  ran : w'.journal.ran = new.reverse ++ w.journal.ran
  /-- A lock loses the acquisitions that have ended, and keeps its file. -/
  lock : ∀ (lock : LockId) (s : DebugLock), w.locks[lock]? = some s →
    ∃ s' : DebugLock, w'.locks[lock]? = some s' ∧ s'.file = s.file ∧
      s'.level + UInt32.ofNat (leaves lock new) = s.level
  opened : ∀ fd, w'.host.isOpen fd = true → w.host.isOpen fd = true
  closed : ∀ d ∈ new, ∀ fd, d.release = .close fd → ¬ w'.host.isOpen fd = true
  program : ∀ j c', w'.context? j = some c' → ∃ c, w.context? j = some c ∧
    c'.program = if j = k then (restored due).getLastD c.program else c.program

namespace World

variable {due more new newer : List (Due Release)} {d : Due Release} {lock : LockId} {s s' : DebugLock}

theorem isOpen_congr {h h' : Host} (hd : h'.descriptors = h.descriptors) (fd : Int) :
    h'.isOpen fd = h.isOpen fd := by
  rw [Host.isOpen, Host.isOpen, Host.descriptor?, Host.descriptor?, hd]

theorem Still.released (h : w.Still w') (k : ContextId) : Released k w w' [] [] where
  ran := h.ran
  lock l s hs := ⟨s, by rw [h.locks]; exact hs, rfl, UInt32.add_zero _⟩
  opened fd hfd := by rwa [isOpen_congr h.descriptors] at hfd
  closed := by simp
  program j c' hc' := by
    have hp := h.program j
    rw [hc', Option.map_some] at hp
    obtain ⟨c, hc, hcp⟩ := Option.map_eq_some_iff.1 hp.symm
    refine ⟨c, hc, ?_⟩
    rw [← hcp]
    split <;> rfl

theorem Released.trans (h : Released k w w' due new) (h' : Released k w' w'' more newer) :
    Released k w w'' (due ++ more) (new ++ newer) where
  ran := by rw [h'.ran, h.ran, List.reverse_append, List.append_assoc]
  lock l s hs := by
    obtain ⟨s', hs', hfile, hlevel⟩ := h.lock l s hs
    obtain ⟨s'', hs'', hfile', hlevel'⟩ := h'.lock l s' hs'
    refine ⟨s'', hs'', hfile'.trans hfile, ?_⟩
    rw [leaves_append, UInt32.ofNat_add, ← hlevel, ← hlevel', UInt32.add_assoc,
      UInt32.add_comm (UInt32.ofNat (leaves l new))]
  opened fd hfd := h.opened fd (h'.opened fd hfd)
  closed d hd fd hfd hopen := by
    rcases List.mem_append.1 hd with hd | hd
    · exact h.closed d hd fd hfd (h'.opened fd hopen)
    · exact h'.closed d hd fd hfd hopen
  program j c'' hc'' := by
    obtain ⟨c', hc', hp'⟩ := h'.program j c'' hc''
    obtain ⟨c, hc, hp⟩ := h.program j c' hc'
    refine ⟨c, hc, ?_⟩
    rw [hp', hp, restored_append, getLastD_append]
    split <;> rfl

/-- A release that is noted before others, and does nothing itself but close what it
    closes. -/
theorem Released.noted
    (h : Released k { w with journal.ran := d :: w.journal.ran } w' due new)
    (hlock : ∀ lock, d.release ≠ .leaveLock lock) (hname : d.release.name? = none)
    (hclose : ∀ fd, d.release = .close fd → ¬ w'.host.isOpen fd = true) :
    Released k w w' (d :: due) (d :: new) where
  ran := by rw [h.ran, List.reverse_cons, List.append_assoc]; rfl
  lock l s hs := by
    obtain ⟨s', hs', hfile, hlevel⟩ := h.lock l s hs
    refine ⟨s', hs', hfile, ?_⟩
    rwa [leaves, List.countP_cons_of_neg (by simpa using hlock l)]
  opened := h.opened
  closed e he fd hfd := by
    rcases List.mem_cons.1 he with rfl | he
    · exact hclose fd hfd
    · exact h.closed e he fd hfd
  program j c' hc' := by
    obtain ⟨c, hc, hp⟩ := h.program j c' hc'
    have hnames : restored (d :: due) = restored due := List.filterMap_cons_none hname
    exact ⟨c, hc, by rw [hnames]; exact hp⟩

/-- Where the context `k` is gone, it does not matter what was due in it. -/
theorem Released.of_gone (h : Released k w w' due new) (hk : w.context? k = none) (j : ContextId) :
    Released j w w' [] new where
  ran := h.ran
  lock := h.lock
  opened := h.opened
  closed := h.closed
  program i c' hc' := by
    obtain ⟨c, hc, hp⟩ := h.program i c' hc'
    have hi : i ≠ k := fun hi => by rw [hi, hk] at hc; cases hc
    refine ⟨c, hc, ?_⟩
    rw [hp, if_neg hi]
    split <;> rfl

/-- A lock is changed and keeps its file, after a release that may end an acquisition
    of it, and of no other lock. -/
theorem released_setLock (s' : DebugLock) (new : List (Due Release))
    (hs : w.locks[lock]? = some s) (hfile : s'.file = s.file)
    (hlevel : s'.level + UInt32.ofNat (leaves lock new) = s.level)
    (hother : ∀ l, l ≠ lock → leaves l new = 0) (hnew : ∀ d ∈ new, ∀ fd, d.release ≠ .close fd)
    (hname : restored new = []) :
    Released k w { w with
      journal.ran := new.reverse ++ w.journal.ran
      locks := w.locks.setIfInBounds lock s' } new new where
  ran := rfl
  lock l s₀ hs₀ := by
    rw [Array.getElem?_setIfInBounds]
    by_cases hl : lock = l
    · subst hl
      rw [hs] at hs₀; cases hs₀
      obtain ⟨hlt, -⟩ := Array.getElem?_eq_some_iff.1 hs
      exact ⟨s', by rw [if_pos rfl, if_pos hlt], hfile, hlevel⟩
    · exact ⟨s₀, by rw [if_neg hl]; exact hs₀, rfl,
        by rw [hother l (Ne.symm hl)]; exact UInt32.add_zero _⟩
  opened fd hfd := hfd
  closed d hd fd hfd := absurd hfd (hnew d hd fd)
  program j c' hc' := ⟨c', hc', by rw [hname]; split <;> rfl⟩

/-- A name that is put back. -/
theorem released_restoreName (k : ContextId) (w : World) (record : Index) (previous : String) :
    Released k w ({ w with journal.ran := ⟨record, .restoreName previous⟩ :: w.journal.ran }.onContext
      k fun c => ((), { c with program := previous })).2
      [⟨record, .restoreName previous⟩] [⟨record, .restoreName previous⟩] := by
  have hcontext := context?_onContext
    { w with journal.ran := ⟨record, .restoreName previous⟩ :: w.journal.ran } k
    (f := fun c => ((), { c with program := previous }))
  refine ⟨?_, fun l s hs => ⟨s, ?_, rfl, UInt32.add_zero _⟩, fun fd hfd => ?_, by simp, fun j c' hc' => ?_⟩
  · unfold onContext; split <;> rfl
  · unfold onContext; split <;> exact hs
  · unfold onContext at hfd; split at hfd <;> exact hfd
  · rw [hcontext j] at hc'
    split at hc'
    · rename_i hj
      obtain ⟨c, hc, rfl⟩ := Option.map_eq_some_iff.1 hc'
      exact ⟨c, hc, by rw [if_pos hj]; rfl⟩
    · rename_i hj
      exact ⟨c', hc', by rw [if_neg hj]⟩

end World

namespace Run

variable {due more : List (Due Release)} {drop : ContextId → Run Unit} {c : Context}

/-- A run has ended the process, or it has returned and has run some releases, of which
    those in `due` were due in the context `k`. -/
def Undid (k : ContextId) (w : World) (due : List (Due Release)) (p : Except Stop α × World) :
    Prop :=
  p.1 = .error .abort ∨ (∃ a, p.1 = .ok a) ∧ ∃ new, World.Released k w p.2 due new

/-- A run that does so in every world. -/
def Undoes (k : ContextId) (run : Run α) (due : List (Due Release)) : Prop :=
  ∀ w : World, Undid k w due (run.exec w)

theorem Undid.after {p : Except Stop α × World} (h : World.Released k w w' due new)
    (hp : Undid k w' more p) : Undid k w (due ++ more) p := by
  rcases hp with hp | ⟨ha, newer, hn⟩
  · exact .inl hp
  · exact .inr ⟨ha, _, h.trans hn⟩

theorem Calm.undoes {x : Run α} (hx : Calm x) (hok : ∀ w, ∃ a, (x.exec w).1 = .ok a)
    (k : ContextId) : Undoes k x [] :=
  fun w => .inr ⟨hok w, [], (hx w).released k⟩

theorem undoes_pure (k : ContextId) (a : α) : Undoes k (pure a : Run α) [] :=
  (calm_pure a).undoes (fun _ => ⟨_, rfl⟩) k

theorem undoes_log (k : ContextId) (e : Event) : Undoes k (log e) [] :=
  (calm_log e).undoes (fun _ => ⟨_, rfl⟩) k

theorem Undid.bind {x : Run α} {f : α → Run β} (hx : Undid k w due (x.exec w'))
    (hf : ∀ a, Undoes k (f a) more) : Undid k w (due ++ more) ((x >>= f).exec w') := by
  rw [exec_bind]
  rcases hr : x.exec w' with ⟨e | a, w''⟩
  · rw [hr] at hx
    rcases hx with h | ⟨⟨a, ha⟩, -⟩
    · cases h; exact .inl rfl
    · cases ha
  · rw [hr] at hx
    rcases hx with h | ⟨-, new, hn⟩
    · cases h
    · exact (hf a w'').after hn

theorem Undoes.before {x : Run α} {f : α → Run β} (hx : Undoes k x [])
    (hf : ∀ a, Undoes k (f a) due) : Undoes k (x >>= f) due :=
  fun w => (hx w).bind hf

theorem Undid.then {x : Run α} {f : α → Run β} (hx : Undid k w due (x.exec w'))
    (hf : ∀ a, Undoes k (f a) []) : Undid k w due ((x >>= f).exec w') :=
  List.append_nil due ▸ hx.bind hf

/-! ### Releases -/

theorem released_closing (k : ContextId) (w : World) (fd : Int) (ho : w.host.isOpen fd = true) :
    let w' := { w with
      host := { w.host with descriptors := w.host.descriptors.setIfInBounds fd.toNat none } }
    World.Released k w w' [] [] ∧ ¬ w'.host.isOpen fd = true := by
  have hclosed := Host.isOpen_closed w.host fd
  refine ⟨⟨rfl, ?_, ?_, by simp, ?_⟩, ?_⟩
  · intro lock s hs
    exact ⟨s, hs, rfl, UInt32.add_zero _⟩
  · intro n hn
    exact (hclosed n hn).1
  · intro j c' hc'
    exact ⟨c', hc', by split <;> rfl⟩
  · intro hn
    exact (hclosed fd hn).2 ho rfl

theorem exec_host (call : Host.Call α) (w : World) :
    (host call).exec w = (.ok (call.exec w.host).1, { w with host := (call.exec w.host).2 }) := rfl

/-- Closing what a context owns closes it, or ends the process. -/
theorem released_closeOwned (k : ContextId) (fd : Int) (w : World) :
    ((closeOwned fd).exec w).1 = .error .abort ∨ (∃ a, ((closeOwned fd).exec w).1 = .ok a) ∧
      World.Released k w ((closeOwned fd).exec w).2 [] [] ∧
        ¬ ((closeOwned fd).exec w).2.host.isOpen fd = true := by
  rw [closeOwned, exec_bind_ok (exec_host _ w), Host.exec_close]
  by_cases ho : w.host.isOpen fd = true
  · rw [if_pos ho]
    exact .inr ⟨⟨(), rfl⟩, released_closing k w fd ho⟩
  · rw [if_neg ho]
    exact .inl rfl

theorem undoes_closeFile (k : ContextId) (fd : Int) {f : Except Errno Unit → Run Unit}
    (hok : ∀ result, f result = match result with | .ok _ => pure () | .error _ => throw .abort) :
    Undoes k (host (Host.close fd) >>= f) [] := by
  intro w
  rw [exec_bind_ok (exec_host _ w), Host.exec_close, hok]
  by_cases ho : w.host.isOpen fd = true
  · rw [if_pos ho]
    exact .inr ⟨⟨(), rfl⟩, [], (released_closing k w fd ho).1⟩
  · rw [if_neg ho]
    exact .inl rfl

/-- Giving up a reference to a lock may close its file, and ends no acquisition. -/
theorem undoes_dropLock (k : ContextId) (lock : LockId) : Undoes k (dropLock lock) [] := by
  intro w
  rw [dropLock, exec_bind_ok (exec_get w)]
  rcases hs : w.locks[lock]? with _ | s
  · exact undoes_pure k () w
  · have hset : World.Released k w { w with
        locks := w.locks.setIfInBounds lock { s with references := s.references - 1 } } [] [] :=
      World.released_setLock { s with references := s.references - 1 } [] hs rfl
        (UInt32.add_zero _) (fun _ _ => rfl) (by simp) rfl
    have hundid : Undid k w [] ((modify fun w : World =>
        { w with locks := w.locks.setIfInBounds lock { s with references := s.references - 1 } }
          : Run Unit).exec w) := .inr ⟨⟨(), rfl⟩, [], hset⟩
    refine hundid.bind fun _ => ?_
    split
    · split
      · refine undoes_closeFile k _ fun result => ?_
        rcases result with e | a <;> rfl
      · exact undoes_pure k ()
    · exact undoes_pure k ()

theorem leaves_leaveLock (record : Index) (lock l : LockId) :
    leaves l [⟨record, .leaveLock lock⟩] = if l = lock then 1 else 0 := by
  by_cases hl : l = lock
  · simp [leaves, hl]
  · simp [leaves, hl, Ne.symm hl]

/-- The end of an acquisition takes the level of its lock down by one. -/
theorem undid_leaveLock (k : ContextId) (record : Index) (lock : LockId) (w : World) :
    Undid k w [⟨record, .leaveLock lock⟩]
      ((leaveLock lock).exec { w with journal.ran := ⟨record, .leaveLock lock⟩ :: w.journal.ran }) := by
  have hleaves := leaves_leaveLock record lock
  rw [leaveLock, exec_bind_ok (exec_get _)]
  dsimp only
  rcases hs : w.locks[lock]? with _ | s
  · refine .inr ⟨⟨(), rfl⟩, [⟨record, .leaveLock lock⟩], rfl, fun l s hs' => ?_, fun _ h => h, by simp,
      fun j c' hc' => ⟨c', hc', by split <;> rfl⟩⟩
    have hl : l ≠ lock := fun hl => by rw [hl, hs] at hs'; cases hs'
    exact ⟨s, hs', rfl, by rw [hleaves, if_neg hl]; exact UInt32.add_zero _⟩
  · have hlevel : s.level - 1 + UInt32.ofNat (leaves lock [⟨record, .leaveLock lock⟩]) = s.level := by
      rw [hleaves, if_pos rfl]
      exact UInt32.sub_add_cancel _ _
    have hset := World.released_setLock (k := k) { s with level := s.level - 1 } _ hs rfl hlevel
      (fun l hl => by rw [hleaves, if_neg hl]) (by simp) rfl
    refine Undid.then (.inr ⟨⟨(), rfl⟩, _, hset⟩) fun _ => ?_
    split
    · split
      · refine Undoes.before (((calm_host (Host.keeps_unlock _)).undoes (fun _ => ⟨_, rfl⟩) k)) fun _ => ?_
        exact undoes_dropLock k lock
      · exact undoes_dropLock k lock
    · exact undoes_dropLock k lock

/-- Running a release does what it says, if dropping a context runs releases. -/
theorem undoes_release (hd : ∀ j k, Undoes j (drop k) []) (k : ContextId) (d : Due Release) :
    Undoes k (release drop k d) [d] := by
  intro w
  obtain ⟨record, r⟩ := d
  obtain ⟨w₁, hw₁⟩ : ∃ w₁, w₁ = { w with journal.ran := ⟨record, r⟩ :: w.journal.ran } := ⟨_, rfl⟩
  have hnote : (modify fun w : World => { w with journal.ran := ⟨record, r⟩ :: w.journal.ran }
      : Run Unit).exec w = (.ok (), w₁) := by rw [hw₁]; rfl
  rw [release, exec_bind_ok hnote]
  subst hw₁
  cases r with
  | note label panics =>
    dsimp only
    split
    · exact .inl (by rw [exec_bind_ok (show (log .releasePanicked).exec _ = (.ok (), _) from rfl)]; rfl)
    · exact .inr ⟨⟨(), rfl⟩, _, ((World.Still.refl _).released k).noted (by simp) rfl (by simp)⟩
  | dropContext label victim =>
    rcases hd k victim _ with h | ⟨ha, new, hn⟩
    · exact .inl h
    · exact .inr ⟨ha, _, hn.noted (by simp) rfl (by simp)⟩
  | close fd =>
    rcases released_closeOwned k fd _ with h | ⟨ha, hn, hclosed⟩
    · exact .inl h
    · refine .inr ⟨ha, _, hn.noted (by simp) rfl fun fd' hfd => ?_⟩
      cases hfd
      exact hclosed
  | forget payload =>
    exact .inr ⟨⟨(), rfl⟩, _, ((World.Still.refl _).released k).noted (by simp) rfl (by simp)⟩
  | restoreName previous => exact .inr ⟨⟨(), rfl⟩, _, World.released_restoreName k w record previous⟩
  | leaveLock lock => exact undid_leaveLock k record lock w

theorem undoes_releaseAll (hd : ∀ j k, Undoes j (drop k) []) (k : ContextId) :
    ∀ due : List (Due Release), Undoes k (releaseAll drop k due) due
  | [] => undoes_pure k ()
  | d :: more => fun w =>
    (undoes_release hd k d w).bind fun _ => undoes_releaseAll hd k more

/-- A context that was taken out is gone, and the names of the others are as they were. -/
theorem released_take (j : ContextId) (w : World) (k : ContextId) :
    World.Released j w { w with contexts := w.contexts.setIfInBounds k none } [] [] ∧
      { w with contexts := w.contexts.setIfInBounds k none }.context? k = none := by
  constructor
  · refine ⟨rfl, fun l s hs => ⟨s, hs, rfl, UInt32.add_zero _⟩, fun _ h => h, by simp, fun i c' hc' => ?_⟩
    rw [context?_setIfInBounds] at hc'
    split at hc'
    · cases hc'
    · exact ⟨c', hc', by split <;> rfl⟩
  · rw [context?_setIfInBounds]
    split
    · rfl
    · rename_i hk
      rw [← Option.not_isSome_iff_eq_none, Option.isSome_iff_exists]
      rintro ⟨c, hc⟩
      exact hk ⟨rfl, lt_size_of_context? hc⟩

/-- Dropping a context runs its releases, and leaves the names of the others alone. -/
theorem undoes_dropWithin : ∀ (b : Nat) (j k : ContextId), Undoes j (dropWithin b k) []
  | 0, j, _ => undoes_pure j ()
  | b + 1, j, k => by
    intro w
    obtain ⟨htake, hgone⟩ := released_take j w k
    rw [dropWithin, exec_bind_ok (show (takeContext k).exec w = _ from rfl)]
    refine Undid.after htake ?_
    rcases w.context? k with _ | c
    · exact undoes_pure j () _
    dsimp only
    rcases c.tree.destroy c.tree.top with ⟨_ | teardown, t⟩
    · exact undoes_pure j () _
    refine Undid.then ?_ fun _ => undoes_log j _
    rcases undoes_releaseAll (undoes_dropWithin b) k teardown.due _ with h | ⟨ha, new, hn⟩
    · exact .inl h
    · exact .inr ⟨ha, new, hn.of_gone hgone j⟩

theorem undoes_dropContext (j k : ContextId) : Undoes j (dropContext k) [] :=
  fun w => undoes_dropWithin w.contexts.size j k w

/-! ### Changes -/

theorem exec_onTree_context (hc : w.context? k = some c) (f : Tree Release → α × Tree Release) :
    ∃ w', (onTree k f).exec w = (.ok (f c.tree).1, w') ∧ w.Still w' ∧
      w'.context? k = some { c with tree := (f c.tree).2 } := by
  have hcontext : w.context k = c := World.context_of_context? hc
  refine ⟨((onTree k f).exec w).2, Prod.ext ?_ rfl, calm_onTree k f w, ?_⟩
  · rw [(exec_onTree k f w).1, hcontext]
  · rw [onTree, exec_onContext, World.context?_onContext, if_pos rfl, hc]
    rfl

/-- A teardown runs what it makes due. -/
theorem undid_destroyScope (hc : w.context? k = some c) (s : Index) :
    Undid k w (Ledger.dueOf c.tree s) ((destroyScope k s).exec w) := by
  obtain ⟨w₁, hexec, hstill, -⟩ := exec_onTree_context hc (·.destroy s)
  rw [destroyScope, exec_bind_ok hexec]
  refine Undid.after (hstill.released k) (?_ : Undid k w₁ (Ledger.dueOf c.tree s) _)
  unfold Ledger.dueOf
  rcases (c.tree.destroy s).1 with _ | teardown
  · exact undoes_pure k _ _
  · exact Undid.then (undoes_releaseAll undoes_dropContext k teardown.due _) fun _ =>
      (undoes_log k _).before fun _ => undoes_pure k true

theorem undid_leaveScope (hc : w.context? k = some c) (s : Index) :
    Undid k w (Ledger.dueOf (c.tree.leaving s) s) ((leaveScope k s).exec w) := by
  rw [leaveScope, exec_bind_ok (exec_view hc _), Tree.leaving]
  rcases c.tree.parent? s with _ | parent
  · exact undid_destroyScope hc s
  · obtain ⟨w₁, hexec, hstill, hc₁⟩ := exec_onTree_context hc fun t => ((), t.enter parent)
    dsimp only
    rw [exec_bind_ok (show (enterScope k parent).exec w = _ from hexec)]
    exact Undid.after (hstill.released k) (undid_destroyScope hc₁ s)

theorem undid_commit (hc : w.context? k = some c) (record : Index) (r : Release) :
    Undid k w (Change.due (.commit record r) c.hold) ((commit k record r).exec w) := by
  obtain ⟨w₁, hexec, hstill, -⟩ := exec_onTree_context hc (·.commit record r)
  rw [commit, exec_bind_ok hexec]
  refine Undid.after (hstill.released k)
    (?_ : Undid k w₁ (if (c.tree.commit record r).1 then [] else [⟨record, r⟩]) _)
  rcases (c.tree.commit record r).1 with _ | _
  · exact Undoes.before (undoes_log k _) (fun _ => undoes_release undoes_dropContext k ⟨record, r⟩) _
  · exact undoes_pure k () _

/-- A run that runs what is due, or ends the process, after runs that leave all alone but
    the tree and the frame of a context. -/
def FreesFrom (k : ContextId) (w : World) (c : Context) (due : List (Due Release)) (run : Run α) :
    Prop :=
  ∀ w₁, w.Still w₁ → w₁.context? k = some c → (run.exec w₁).1 = .error .abort ∨
    ∃ new, World.Released k w (run.exec w₁).2 due new

theorem FreesFrom.log {rest : Run α} (h : FreesFrom k w c due rest) (e : Event) :
    FreesFrom k w c due (do log e; rest) := by
  intro w₁ hs hc
  rw [exec_bind_ok (show (Run.log e).exec w₁ = (.ok (), w₁.record e) from rfl)]
  refine h _ (hs.trans (still_record w₁ e)) ?_
  rw [World.context?, contexts_record]
  exact hc

theorem freesFrom_destroyScope (k : ContextId) (w : World) (c : Context) (s : Index) {f : Bool → Run α}
    (hf : ∀ b, Calm (f b)) :
    FreesFrom k w c (Ledger.dueOf c.tree s) (destroyScope k s >>= f) := by
  intro w₁ hs hc
  rw [exec_bind]
  rcases hr : (destroyScope k s).exec w₁ with ⟨e | b, w₂⟩ <;>
    have hundid := Undid.after (hs.released k) (undid_destroyScope hc s) <;>
    rw [hr] at hundid <;> rcases hundid with h | ⟨⟨a, ha⟩, new, hn⟩
  · cases h; exact .inl rfl
  · cases ha
  · cases h
  · have h := hn.trans ((hf b w₂).released k)
    rw [List.append_nil, List.append_nil] at h
    exact .inr ⟨new, h⟩

theorem FreesFrom.back {rest : Run α} {call : ProtectedCall} (hc : w.context? k = some c)
    (h : FreesFrom k w ⟨c.tree.enter call.resume, call.outer, c.program⟩ due rest) :
    ((do
        onContext k fun c => ((), { c with frame := call.outer })
        enterScope k call.resume
        rest).exec w).1 = .error .abort ∨
      ∃ new, World.Released k w ((do
        onContext k fun c => ((), { c with frame := call.outer })
        enterScope k call.resume
        rest).exec w).2 due new := by
  obtain ⟨w₁, hw₁⟩ : ∃ w₁, (onContext k fun c => ((), { c with frame := call.outer })).exec w =
      (.ok (), w₁) := ⟨_, rfl⟩
  have hframe : w.Still w₁ := by
    have hcalm := calm_onContext (f := fun c : Context => ((), { c with frame := call.outer }))
      (fun _ => rfl) k w
    rwa [hw₁] at hcalm
  have hc₁ : w₁.context? k = some { c with frame := call.outer } := by
    have hcontext := World.context?_onContext w k k
      (f := fun c : Context => ((), { c with frame := call.outer }))
    rw [if_pos rfl, hc] at hcontext
    cases hw₁
    exact hcontext
  obtain ⟨w₂, hexec, hstill, hc₂⟩ := exec_onTree_context hc₁ fun t => ((), t.enter call.resume)
  rw [exec_bind_ok hw₁, exec_bind_ok (show (enterScope k call.resume).exec w₁ = _ from hexec)]
  exact h w₂ (hframe.trans hstill) hc₂

/-- The end of a call runs what it makes due, in whatever way the body ended. -/
theorem released_leaveCall (hc : w.context? k = some c) (call : ProtectedCall) (how : Exit Unit) :
    ((leaveCall k call how).exec w).1 = .error .abort ∨
      ∃ new, World.Released k w ((leaveCall k call how).exec w).2
        (Change.due (.exit call how) c.hold) new := by
  cases how with
  | returned value =>
    refine FreesFrom.back hc (FreesFrom.log (fun w₁ hs _ => .inr ⟨[], hs.released k⟩) _)
  | failed f =>
    have hrest := (freesFrom_destroyScope k w ⟨c.tree.enter call.resume, call.outer, c.program⟩
      call.boundary fun _ => calm_pure (Except.error f.report : Except Report Unit)).log
        (.unwinding call.depth f.code)
    refine FreesFrom.back hc (?_ : FreesFrom k w ⟨c.tree.enter call.resume, call.outer, c.program⟩
      (Ledger.dueOf (c.tree.enter call.resume) call.boundary) _)
    dsimp only
    split
    · exact hrest.log _
    · exact hrest
  | panicked p =>
    exact FreesFrom.back hc ((freesFrom_destroyScope k w
      ⟨c.tree.enter call.resume, call.outer, c.program⟩ call.boundary fun _ =>
        calm_throw (α := Except Report Unit) (.panic p)).log _)

end Run

/-- Whatever change is made in a context, it runs what it makes due. -/
theorem Change.released {c : Context} {r : Except Stop Unit} (hc : w.context? k = some c)
    (change : Change) (hexec : (change.run k).exec w = (r, w')) (hr : r ≠ .error .abort) :
    ∃ new, World.Released k w w' (change.due c.hold) new := by
  have hcalm : ∀ {α : Type} {x : Run α}, Run.Calm x → (discard x).exec w = (r, w') →
      ∃ new, World.Released k w w' [] new := by
    intro α x hx hexec
    rw [Run.exec_discard] at hexec
    cases hexec
    exact ⟨[], (hx w).released k⟩
  have hundid : ∀ {α : Type} {x : Run α} {due : List (Due Release)}, Run.Undid k w due (x.exec w) →
      (discard x).exec w = (r, w') → ∃ new, World.Released k w w' due new := by
    intro α x due hx hexec
    rw [Run.exec_discard] at hexec
    cases hexec
    rcases hx with h | ⟨-, hn⟩
    · rw [h] at hr; exact absurd rfl hr
    · exact hn
  cases change with
  | push => exact hcalm (Run.calm_pushScope k) hexec
  | pop => exact hcalm (Run.calm_popScope k) hexec
  | destroy s => exact hundid (Run.undid_destroyScope hc s) hexec
  | leave s => exact hundid (Run.undid_leaveScope hc s) hexec
  | reserve => exact hcalm (Run.calm_reserve k) hexec
  | commit record release => exact hundid (Run.undid_commit hc record release) hexec
  | write record position byte => exact hcalm (Run.calm_setByte k record position byte) hexec
  | enter detail => exact hcalm (Run.calm_enterCall k detail) hexec
  | exit call how =>
    have hleave := Run.released_leaveCall hc call how
    rw [Change.run, Run.exec_discard] at hexec
    cases hexec
    rcases hleave with h | hn
    · rw [h] at hr; exact absurd rfl hr
    · exact hn

end ScopedResources
