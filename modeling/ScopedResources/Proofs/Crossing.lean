/-
  Failures that are received by a call which they were not made in.

  A failure may be kept and returned later: from a call around the one that it was made in,
  from a call inside that one, from a call that begins when that one has ended, or from a
  call of another context.  The call that receives it knows how deep it was made, and warns
  if that is not its own depth.

  * `ActiveCall` is a call while it is active; no two calls have the same number.
  * `Calling` are the runs whose calls end from the inside out, with a mark wherever a
    failure is made and wherever a call receives one.  What performs no end of a call is a
    piece of such a run (`Calling.of_performs`), and so is a call (`Calling.exists_protect`).
  * `Ledger.InCalls`: the frames of the contexts count the calls that are active.
  * `crossing_warned`: a call never warns of a failure of its own, and of two calls of one
    context, one of them around the other, it always warns; it tells both depths.
  * `unwarned_besideEachOther`: calls that are beside each other have the same depth, and
    there is no warning.
-/
import ScopedResources.Proofs.Ending
import ScopedResources.Proofs.ProtectedCall
import ScopedResources.Proofs.Releasing
import ScopedResources.Proofs.Reports

namespace ScopedResources

variable {α β : Type} {w w' w₁ w₂ : World} {l l' l'' : Ledger} {k : ContextId} {c : Context}
  {run : Run α} {r : Except Stop α} {f : Failure}

/-! ## Warnings -/

/-- Whether an event is logged between two worlds. -/
def World.Logs (w w' : World) (e : Event) : Prop :=
  ∃ logged, w'.journal.events = logged ++ w.journal.events ∧ e ∈ logged

/-- Whether a call warns between two worlds that the failure which it receives has crossed
    another call. -/
def World.Warns (w w' : World) : Prop :=
  ∃ raisedAt caughtAt, w.Logs w' (.crossed raisedAt caughtAt)

namespace Run

/-- A run that warns of no failure that has crossed a call. -/
def Unwarning (run : Run α) : Prop :=
  ∀ w : World, ∃ logged, (run.exec w).2.journal.events = logged ++ w.journal.events ∧
    ∀ a b, Event.crossed a b ∉ logged

variable {x : Run α} {g : α → Run β}

theorem unwarning_of_events (h : ∀ w, (x.exec w).2.journal.events = w.journal.events) :
    Unwarning x :=
  fun w => ⟨[], h w, by simp⟩

theorem unwarning_pure (a : α) : Unwarning (pure a : Run α) := unwarning_of_events fun _ => rfl

theorem unwarning_throw (e : Stop) : Unwarning (throw e : Run α) := unwarning_of_events fun _ => rfl

theorem unwarning_log {e : Event} (he : ∀ a b, e ≠ .crossed a b) : Unwarning (log e) :=
  fun w => ⟨[e], w.events_record e, fun a b h => he a b (List.mem_singleton.1 h).symm⟩

theorem events_onContext (w : World) (k : ContextId) (f : Context → α × Context) :
    ∃ w₁, (onContext k f).exec w = (.ok (f (w.context k)).1, w₁) ∧
      w₁.journal.events = w.journal.events := by
  refine ⟨(w.onContext k f).2, Prod.ext (congrArg Except.ok (onContext_fst w k f)) rfl, ?_⟩
  unfold World.onContext
  split <;> rfl

theorem unwarning_onContext (k : ContextId) (f : Context → α × Context) :
    Unwarning (onContext k f) :=
  unwarning_of_events fun w => by
    obtain ⟨w₁, hexec, hevents⟩ := events_onContext w k f
    rw [hexec]
    exact hevents

theorem unwarning_host (call : Host.Call α) : Unwarning (host call) :=
  unwarning_of_events fun _ => rfl

theorem Unwarning.bind (hx : Unwarning x) (hg : ∀ a, Unwarning (g a)) : Unwarning (x >>= g) := by
  intro w
  obtain ⟨logged, hlogged, hnone⟩ := hx w
  rw [exec_bind]
  rcases hr : x.exec w with ⟨e | a, w₁⟩ <;> rw [hr] at hlogged
  · exact ⟨logged, hlogged, hnone⟩
  · obtain ⟨more, hmore, hnone'⟩ := hg a w₁
    refine ⟨more ++ logged, by rw [List.append_assoc, ← hlogged]; exact hmore, fun a b h => ?_⟩
    exact (List.mem_append.1 h).elim (hnone' a b) (hnone a b)

/-! ### Teardowns -/

theorem unwarning_dropLock (lock : LockId) : Unwarning (dropLock lock) := by
  refine Unwarning.bind (unwarning_of_events fun _ => rfl) fun w => ?_
  split
  · refine Unwarning.bind (unwarning_of_events fun _ => rfl) fun _ => ?_
    split
    · split
      · refine (unwarning_host _).bind fun result => ?_
        split
        · exact unwarning_throw _
        · exact unwarning_pure _
      · exact unwarning_pure _
    · exact unwarning_pure _
  · exact unwarning_pure _

theorem unwarning_leaveLock (lock : LockId) : Unwarning (leaveLock lock) := by
  refine Unwarning.bind (unwarning_of_events fun _ => rfl) fun w => ?_
  split
  · refine Unwarning.bind (unwarning_of_events fun _ => rfl) fun _ => ?_
    dsimp only
    split
    · split
      · exact (unwarning_host _).bind fun _ => unwarning_dropLock lock
      · exact unwarning_dropLock lock
    · exact unwarning_dropLock lock
  · exact unwarning_pure _

theorem unwarning_closeOwned (fd : Int) : Unwarning (closeOwned fd) := by
  refine (unwarning_host _).bind fun result => ?_
  split
  · exact unwarning_pure _
  · exact Unwarning.bind (unwarning_of_events fun _ => rfl) fun _ =>
      (unwarning_log (by simp)).bind fun _ => unwarning_throw _

theorem unwarning_release {drop : ContextId → Run Unit} (hd : ∀ k, Unwarning (drop k))
    (k : ContextId) (d : Due Release) : Unwarning (release drop k d) := by
  refine Unwarning.bind (unwarning_of_events fun _ => rfl) fun _ => ?_
  obtain ⟨i, r⟩ := d
  cases r with
  | note label panics =>
    dsimp only
    split
    · exact (unwarning_log (by simp)).bind fun _ => unwarning_throw _
    · exact unwarning_pure _
  | dropContext label victim => exact hd victim
  | close fd => exact unwarning_closeOwned fd
  | forget payload => exact unwarning_pure _
  | restoreName previous => exact unwarning_onContext k _
  | leaveLock lock => exact unwarning_leaveLock lock

theorem unwarning_releaseAll {drop : ContextId → Run Unit} (hd : ∀ k, Unwarning (drop k))
    (k : ContextId) : ∀ due : List (Due Release), Unwarning (releaseAll drop k due)
  | [] => unwarning_pure _
  | d :: more => (unwarning_release hd k d).bind fun _ => unwarning_releaseAll hd k more

theorem unwarning_dropWithin : ∀ (b : Nat) (k : ContextId), Unwarning (dropWithin b k)
  | 0, _ => unwarning_pure _
  | b + 1, k => by
    refine Unwarning.bind (x := takeContext k) (unwarning_of_events fun _ => rfl) fun taken => ?_
    rcases taken with _ | c
    · exact unwarning_pure _
    · dsimp only
      split
      · exact (unwarning_releaseAll (unwarning_dropWithin b) k _).bind fun _ =>
          unwarning_log (by simp)
      · exact unwarning_pure _

theorem unwarning_destroyScope (k : ContextId) (s : Index) : Unwarning (destroyScope k s) := by
  refine (unwarning_onContext k _).bind fun torn => ?_
  split
  · refine (unwarning_releaseAll (fun j => ?_) k _).bind fun _ =>
      (unwarning_log (by simp)).bind fun _ => unwarning_pure _
    exact Unwarning.bind (unwarning_of_events fun _ => rfl) fun w => unwarning_dropWithin _ j
  · exact unwarning_pure _

end Run

theorem World.logs_iff {logged : List Event} {e : Event}
    (h : w'.journal.events = logged ++ w.journal.events) : w.Logs w' e ↔ e ∈ logged := by
  constructor
  · rintro ⟨logged', h', he⟩
    rw [h, List.append_cancel_right_eq] at h'
    rw [h']
    exact he
  · exact fun he => ⟨logged, h, he⟩

/-- A call that receives a failure warns if the failure was made at another depth. -/
theorem Run.logs_leaveCall {call : ProtectedCall} {res : Except Stop (Except Report α)}
    (hexec : (leaveCall k call (.failed f)).exec w = (res, w')) (a b : Nat) :
    w.Logs w' (.crossed a b) ↔ a = f.depth ∧ b = call.depth ∧ a ≠ b := by
  -- what the call does after it has warned
  have hrest : Unwarning (do
      log (.unwinding call.depth f.code)
      let _ ← destroyScope k call.boundary
      return .error f.report : Run (Except Report α)) :=
    (unwarning_log (by simp)).bind fun _ =>
      (unwarning_destroyScope k call.boundary).bind fun _ => unwarning_pure _
  obtain ⟨w₁, hframe, hevents⟩ :=
    events_onContext w k fun c => ((), { c with frame := call.outer })
  obtain ⟨w₂, henter, hevents₂⟩ : ∃ w₂, (enterScope k call.resume).exec w₁ = (.ok (), w₂) ∧
      w₂.journal.events = w₁.journal.events := events_onContext w₁ k _
  rw [leaveCall, exec_bind_ok hframe, exec_bind_ok henter] at hexec
  rw [hevents] at hevents₂
  dsimp only at hexec
  split at hexec
  · rename_i hne
    rw [exec_bind_ok (show (log _).exec w₂ = (.ok (), w₂.record _) from rfl)] at hexec
    obtain ⟨logged, hlogged, hnone⟩ := hrest (w₂.record (.crossed f.depth call.depth))
    rw [hexec, w₂.events_record, hevents₂, List.append_cons] at hlogged
    rw [World.logs_iff hlogged, List.mem_append, List.mem_singleton, or_iff_right (hnone a b)]
    simp only [Event.crossed.injEq]
    constructor
    · rintro ⟨rfl, rfl⟩
      exact ⟨rfl, rfl, hne⟩
    · rintro ⟨rfl, rfl, -⟩
      exact ⟨rfl, rfl⟩
  · rename_i heq
    obtain ⟨logged, hlogged, hnone⟩ := hrest w₂
    rw [show (_ : Run (Except Report α)).exec w₂ = (res, w') from hexec, hevents₂] at hlogged
    rw [World.logs_iff hlogged]
    refine iff_of_false (hnone a b) ?_
    rintro ⟨rfl, rfl, hab⟩
    exact heq hab

/-! ## Calls that are active -/

/-- A protected call while it is active. -/
structure ActiveCall where
  /-- How many calls have begun before it, in whatever contexts. -/
  number : Nat
  context : ContextId
  deriving DecidableEq, Repr

/-- How many of the active calls are calls of a context. -/
def depthIn (k : ContextId) (active : List ActiveCall) : Nat :=
  active.countP (·.context = k)

/-- The innermost active call of a context; the innermost calls come first. -/
def innermost? (k : ContextId) (active : List ActiveCall) : Option ActiveCall :=
  active.find? (·.context = k)

/-- Whether each of the active calls began inside those after it; `begun` lists the calls that
    have begun, by number, with the calls around them. -/
def Nested (begun : List (List ActiveCall)) : List ActiveCall → Prop
  | [] => True
  | a :: around => begun[a.number]? = some around ∧ Nested begun around

variable {active around inside rest : List ActiveCall} {a call home : ActiveCall}
  {begun begun' : List (List ActiveCall)}

theorem depthIn_cons (k : ContextId) (a : ActiveCall) (active : List ActiveCall) :
    depthIn k (a :: active) = depthIn k active + if a.context = k then 1 else 0 := by
  simp only [depthIn, List.countP_cons, decide_eq_true_eq]

theorem depthIn_append (k : ContextId) (inside around : List ActiveCall) :
    depthIn k (inside ++ around) = depthIn k inside + depthIn k around :=
  List.countP_append

theorem depthIn_eq_zero (h : ∀ a ∈ active, a.context ≠ k) : depthIn k active = 0 :=
  List.countP_eq_zero.2 fun a ha => by simpa using h a ha

theorem depthIn_pos (ha : a ∈ active) (hk : a.context = k) : 0 < depthIn k active :=
  List.countP_pos_iff.2 ⟨a, ha, by simpa using hk⟩

theorem exists_of_innermost? (h : innermost? k active = some home) :
    home.context = k ∧ ∃ inside around, active = inside ++ home :: around ∧
      depthIn k inside = 0 := by
  obtain ⟨hk, inside, around, rfl, hinside⟩ := List.find?_eq_some_iff_append.1 h
  refine ⟨by simpa using hk, inside, around, rfl, depthIn_eq_zero fun a ha => ?_⟩
  simpa using hinside a ha

theorem Nested.mono (h : Nested begun active) (hb : begun <+: begun') :
    Nested begun' active := by
  obtain ⟨later, rfl⟩ := hb
  induction active with
  | nil => trivial
  | cons a around ih =>
    have hlt := (List.getElem?_eq_some_iff.1 h.1).1
    exact ⟨(List.getElem?_append_left hlt).trans h.1, ih h.2⟩

theorem Nested.drop (h : Nested begun (inside ++ around)) : Nested begun around := by
  induction inside with
  | nil => exact h
  | cons b inside ih => exact ih h.2

/-- One call has the same calls around it at all times. -/
theorem Nested.around_eq (h : Nested begun (a :: around)) (h' : Nested begun (a :: rest)) :
    around = rest :=
  Option.some.inj (h.1.symm.trans h'.1)

/-! ## Frames -/

/-- Contexts that are left have the frames that they had, and new ones are in no call. -/
structure Ledger.KeepsFrames (l l' : Ledger) : Prop where
  count : l.count ≤ l'.count
  frame : ∀ k h', l'.hold k = some h' →
    (∃ h, l.hold k = some h ∧ h'.frame = h.frame) ∨ l.count ≤ k ∧ h'.frame = none

/-- The frames of the contexts are those of the calls that are active. -/
structure Ledger.InCalls (l : Ledger) (active : List ActiveCall) : Prop where
  depth : ∀ k h, l.hold k = some h → h.depth = depthIn k active
  frame : ∀ k h frame, l.hold k = some h → h.frame = some frame → frame.depth ≠ 0
  context : ∀ a ∈ active, a.context < l.count

namespace Ledger

theorem KeepsFrames.refl (l : Ledger) : l.KeepsFrames l :=
  ⟨Nat.le_refl _, fun _ h' hh' => .inl ⟨h', hh', rfl⟩⟩

theorem KeepsFrames.trans (h : l.KeepsFrames l') (h' : l'.KeepsFrames l'') : l.KeepsFrames l'' where
  count := h.count.trans h'.count
  frame k x'' hx'' := by
    rcases h'.frame k x'' hx'' with ⟨x', hx', hframe'⟩ | ⟨hk, hnone⟩
    · rw [hframe']
      exact h.frame k x' hx'
    · exact .inr ⟨h.count.trans hk, hnone⟩

theorem Outlasts.keepsFrames (h : Outlasts l l') : l.KeepsFrames l' :=
  ⟨h.count.ge, fun k h' hh' => .inl ⟨h', h.hold k h' hh', rfl⟩⟩

theorem keepsFrames_onHold {g : Hold → Hold} (hg : ∀ h, (g h).frame = h.frame) (l : Ledger)
    (k : ContextId) : l.KeepsFrames (l.onHold k g) := by
  refine ⟨Nat.le_refl _, fun j h' hh' => .inl ?_⟩
  rw [hold_onHold] at hh'
  split at hh'
  · obtain ⟨h, hh, rfl⟩ := Option.map_eq_some_iff.1 hh'
    exact ⟨h, hh, hg h⟩
  · exact ⟨h', hh', rfl⟩

theorem InCalls.keep (h : l.InCalls active) (hl : l.KeepsFrames l') : l'.InCalls active where
  depth k x' hx' := by
    rcases hl.frame k x' hx' with ⟨x, hx, hframe⟩ | ⟨hk, hnone⟩
    · rw [← h.depth k x hx, Hold.depth, hframe, Hold.depth]
    · rw [Hold.depth, hnone, depthIn_eq_zero fun a ha he => ?_]
      exact absurd (h.context a ha) (by rw [he]; exact Nat.not_lt.2 hk)
  frame k x' frame hx' hframe' := by
    rcases hl.frame k x' hx' with ⟨x, hx, hframe⟩ | ⟨hk, hnone⟩
    · exact h.frame k x frame hx (hframe ▸ hframe')
    · rw [hnone] at hframe'
      cases hframe'
  context a ha := (h.context a ha).trans_le hl.count

end Ledger

/-- Whether an operation begins or ends a call. -/
def Op.IsCall : Op → Prop
  | change _ (.enter _) | change _ (.exit _ _) => True
  | _ => False

theorem Change.frame_apply {ch : Change} (h : Hold) (hc : ¬ (Op.change k ch).IsCall) :
    (ch.apply h).frame = h.frame := by
  cases ch with
  | enter detail => exact absurd trivial hc
  | exit call how => exact absurd trivial hc
  | push | pop | destroy _ | leave _ | reserve | commit _ _ | write _ _ _ => rfl

/-- An operation that neither begins nor ends a call keeps the frames. -/
theorem Op.keepsFrames {o : Op} (ho : ¬ o.IsCall) (l : Ledger) : l.KeepsFrames (o.step l) := by
  cases o with
  | newContext program =>
    refine ⟨Nat.le_succ _, fun k h' hh' => ?_⟩
    dsimp only [Op.step] at hh'
    split at hh'
    · rename_i hk
      cases hh'
      exact .inr ⟨hk.ge, rfl⟩
    · exact .inl ⟨h', hh', rfl⟩
  | dropContext k => exact (Ledger.outlasts_drop k l).keepsFrames
  | change k ch =>
    exact (Ledger.keepsFrames_onHold (fun h => ch.frame_apply h ho) l k).trans
      (Ledger.outlasts_releaseAll Ledger.outlasts_drop _ _).keepsFrames

theorem Trail.keepsFrames {steps : List Step} (h : Trail l steps l')
    (hs : ∀ s ∈ steps, ¬ s.op.IsCall) : l.KeepsFrames l' := by
  induction h with
  | nil l => exact .refl l
  | cons hstep _ ih =>
    obtain ⟨hfirst, hlater⟩ := List.forall_mem_cons.1 hs
    exact .trans (hstep ▸ Op.keepsFrames hfirst _) (ih hlater)

theorem Ledger.InCalls.enter {detail : Detail} {h' : Hold} (h : l.InCalls active) (n : Nat)
    (hk : l.hold k = some h') (hlt : k < l.count) (hpush : (h'.tree.push.1).isSome) :
    (l.onHold k (Change.apply (.enter detail))).InCalls (⟨n, k⟩ :: active) := by
  obtain ⟨b, hb⟩ := Option.isSome_iff_exists.1 hpush
  have hframe : (Change.apply (.enter detail) h').frame = some ⟨b, detail, h'.depth + 1⟩ := by
    rw [Change.apply, show h'.tree.push = (some b, h'.tree.push.2) from Prod.ext hb rfl]
  refine ⟨fun j x hx => ?_, fun j x frame hx hframe' => ?_, fun a ha => ?_⟩
  · rw [Ledger.hold_onHold] at hx
    rw [depthIn_cons]
    split at hx
    · rename_i hj
      subst hj
      rw [hk, Option.map_some, Option.some.injEq] at hx
      rw [← hx, Hold.depth, hframe, h.depth j h' hk, if_pos rfl]
    · rename_i hj
      rw [h.depth j x hx, if_neg (Ne.symm hj), Nat.add_zero]
  · rw [Ledger.hold_onHold] at hx
    split at hx
    · rename_i hj
      subst hj
      rw [hk, Option.map_some, Option.some.injEq] at hx
      rw [← hx, hframe] at hframe'
      cases hframe'
      exact Nat.succ_ne_zero _
    · exact h.frame j x frame hx hframe'
  · rcases List.mem_cons.1 ha with rfl | ha
    · exact hlt
    · exact h.context a ha

/-- The call that has begun is the innermost one. -/
theorem Run.inCalls_enterCall {detail : Detail} {call : ProtectedCall} (h : w.ledger.InCalls active)
    (hc : w.context? k = some c) (n : Nat)
    (hexec : (enterCall k detail).exec w = (.ok (.ok call), w₁)) :
    call.outer = c.frame ∧ call.depth = depthIn k (⟨n, k⟩ :: active) ∧
      w₁.ledger.InCalls (⟨n, k⟩ :: active) ∧
        w₁.ledger = w.ledger.onHold k (Change.apply (.enter detail)) := by
  have hcontext : w.context k = c := World.context_of_context? hc
  have hk : w.ledger.hold k = some c.hold := World.hold_of_context? hc
  rcases exec_enterCall k detail w with habort | ⟨hcall, hl⟩
  · rw [hexec] at habort
    cases habort
  rw [hexec, hcontext] at hcall
  rw [hexec] at hl
  have hl : w₁.ledger = w.ledger.onHold k (Change.apply (.enter detail)) := hl
  rcases hp : c.tree.push.1 with _ | b
  · rw [hp] at hcall
    obtain ⟨report, hreport⟩ := hcall
    cases hreport
  · rw [hp] at hcall
    cases hcall
    refine ⟨rfl, ?_, ?_, hl⟩
    · rw [depthIn_cons, if_pos rfl, ← h.depth k _ hk]
      rfl
    · rw [hl]
      exact h.enter n hk (Run.lt_size_of_context? hc) (Option.isSome_of_eq_some hp)

/-- When a call has ended, the frames are those that there were before it. -/
theorem Ledger.keepsFrames_leave {g : Hold → Hold} {call : ProtectedCall} {how : Exit Unit} {h : Hold}
    (hk : l.hold k = some h) (houter : call.outer = h.frame)
    (hl : (l.onHold k g).KeepsFrames l') :
    l.KeepsFrames ((Op.change k (.exit call how)).step l') := by
  refine .trans ?_ (Ledger.outlasts_releaseAll Ledger.outlasts_drop _ _).keepsFrames
  refine ⟨hl.count, fun j x hx => ?_⟩
  rw [hold_onHold] at hx
  split at hx
  · rename_i hj
    subst hj
    obtain ⟨y, -, rfl⟩ := Option.map_eq_some_iff.1 hx
    exact .inl ⟨h, hk, (frame_exit call how y).trans houter⟩
  · rename_i hj
    have hframe := hl.frame j x hx
    rw [hold_onHold, if_neg hj] at hframe
    exact hframe

/-! ## Runs with calls -/

/-- Something that is seen of a run. -/
inductive Mark where
  /-- A failure is made in a context, while some calls are active. -/
  | made (f : Failure) (k : ContextId) (active : List ActiveCall)
  /-- A call inside others receives a failure, and ends; with the worlds before and after it
      ends. -/
  | received (f : Failure) (call : ActiveCall) (around : List ActiveCall) (before after : World)

/-- What is seen where a call ends. -/
def Exit.marks (call : ActiveCall) (around : List ActiveCall) (before after : World) :
    Exit α → List Mark
  | .failed f => [.received f call around before after]
  | .returned _ | .panicked _ => []

/-- Inside the calls `active`, a run ends with `r` in the world `w'`, and leaves some marks.  Its
    calls end from the inside out; `begun` and `begun'` are the calls that have begun before
    and after it, each with those around it. -/
inductive Calling : {α : Type} → List ActiveCall → Run α → World → List (List ActiveCall) →
    List Mark → Except Stop α → World → List (List ActiveCall) → Prop
  /-- A run that leaves the contexts in the calls that they are in. -/
  | aside {α : Type} {active : List ActiveCall} {run : Run α} {w w' : World}
      {begun : List (List ActiveCall)} {r : Except Stop α} :
    run.exec w = (r, w') → (r ≠ .error .abort → w.ledger.KeepsFrames w'.ledger) →
    Calling active run w begun [] r w' begun
  | raise {active : List ActiveCall} {k : ContextId} {x : Raise} {w w' : World}
      {begun : List (List ActiveCall)} {f : Failure} :
    (x.run k).exec w = (.ok f, w') →
    Calling active (x.run k) w begun [.made f k active] (.ok f) w' begun
  | bind {α β : Type} {active : List ActiveCall} {x : Run α} {g : α → Run β} {w w₁ w₂ : World}
      {begun begun₁ begun₂ : List (List ActiveCall)} {marks more : List Mark} {a : α}
      {r : Except Stop β} :
    Calling active x w begun marks (.ok a) w₁ begun₁ →
    Calling active (g a) w₁ begun₁ more r w₂ begun₂ →
    Calling active (x >>= g) w begun (marks ++ more) r w₂ begun₂
  | stop {α β : Type} {active : List ActiveCall} {x : Run α} {g : α → Run β} {w w₁ : World}
      {begun begun₁ : List (List ActiveCall)} {marks : List Mark} {e : Stop} :
    Calling active x w begun marks (.error e) w₁ begun₁ →
    Calling active (x >>= g) w begun marks (.error e) w₁ begun₁
  | attempt {α : Type} {active : List ActiveCall} {x : Run α} {w w₁ : World}
      {begun begun₁ : List (List ActiveCall)} {marks : List Mark} {r : Except Stop α} :
    Calling active x w begun marks r w₁ begun₁ →
    Calling active (Run.attempt x) w begun marks (Run.attempted r) w₁ begun₁
  /-- A call, in whatever way its body ends. -/
  | protect {α : Type} {active : List ActiveCall} {k : ContextId} {detail : Detail} {body : Run α}
      {c : Context} {call : ProtectedCall} {w w₁ w₂ w' : World}
      {begun begun' : List (List ActiveCall)} {marks : List Mark} {r : Except Stop α} {how : Exit α}
      {result : Except Stop (Except Report α)} :
    w.context? k = some c → (Run.enterCall k detail).exec w = (.ok (.ok call), w₁) →
    Calling (⟨begun.length, k⟩ :: active) body w₁ (begun ++ [active]) marks r w₂ begun' →
    Run.attempted r = .ok how → (Run.leaveCall k call how).exec w₂ = (result, w') →
    Calling active (Run.protect k detail body) w begun
      (marks ++ how.marks ⟨begun.length, k⟩ active w₂ w') result w' begun'
  /-- A call in which the process ends. -/
  | abort {α : Type} {active : List ActiveCall} {k : ContextId} {detail : Detail} {body : Run α}
      {c : Context} {call : ProtectedCall} {w w₁ w₂ : World}
      {begun begun' : List (List ActiveCall)} {marks : List Mark} :
    w.context? k = some c → (Run.enterCall k detail).exec w = (.ok (.ok call), w₁) →
    Calling (⟨begun.length, k⟩ :: active) body w₁ (begun ++ [active]) marks (.error .abort) w₂ begun' →
    Calling active (Run.protect k detail body) w begun marks (.error .abort) w₂ begun'

/-- What is known of a mark: what a failure and a call know of their depths is how many calls of
    their contexts were active. -/
def Mark.Sound (begun : List (List ActiveCall)) : Mark → Prop
  | made f k active => Nested begun active ∧ f.depth = depthIn k active ∧ f.depth ≠ 0
  | received f call around before after => Nested begun (call :: around) ∧ ∀ a b,
      before.Logs after (.crossed a b) ↔
        a = f.depth ∧ b = depthIn call.context (call :: around) ∧ a ≠ b

theorem Mark.Sound.mono {m : Mark} (h : m.Sound begun) (hb : begun <+: begun') : m.Sound begun' := by
  cases m with
  | made f k active => exact ⟨h.1.mono hb, h.2⟩
  | received f call around before after => exact ⟨h.1.mono hb, h.2⟩

/-- A failure has the depth of the innermost call of the context that makes it. -/
theorem Raise.depth_of_exec {x : Raise} (hexec : (x.run k).exec w = (.ok f, w')) :
    ∃ c frame, w.context? k = some c ∧ c.frame = some frame ∧ f.depth = frame.depth := by
  rcases hc : w.context? k with _ | c
  · -- where a context is gone, a failure ends the process
    have hnone : (w.context k).frame = none := by rw [World.context, hc]; rfl
    have hgoes : ((x.run k).exec w).1 ≠ .error .abort := by rw [hexec]; simp
    refine absurd ?_ hgoes
    cases x with
    | fail code g => exact (Run.exec_fail_abort_iff k code g w).2 hnone
    | io e g => exact (Run.exec_fail_abort_iff k e.code _ w).2 hnone
    | noMemory => exact (Run.exec_failNoMemory_abort_iff k w).2 hnone
  · have hfail : ∀ code g, (Run.fail k code g).exec w = (.ok f, w') →
        ∃ frame, c.frame = some frame ∧ f.depth = frame.depth := by
      intro code g hfail
      have hmade := Run.exec_fail hc code g
      rw [hfail, Context.failure?] at hmade
      rcases hframe : c.frame with _ | frame <;> rw [hframe] at hmade
      · cases hmade
      · rw [Option.map_some] at hmade
        refine ⟨frame, rfl, ?_⟩
        rcases hd : frame.detail with _ | _ <;> rw [hd] at hmade <;> cases hmade <;> rfl
    have hframe : ∃ frame, c.frame = some frame ∧ f.depth = frame.depth := by
      cases x with
      | fail code g => exact hfail code g hexec
      | io e g => exact hfail e.code _ hexec
      | noMemory =>
        have hmade := Run.exec_failNoMemory hc
        rw [show (Run.failNoMemory k).exec w = (.ok f, w') from hexec, Context.noMemory?] at hmade
        rcases hframe : c.frame with _ | frame <;> rw [hframe] at hmade <;> cases hmade
        exact ⟨frame, rfl, rfl⟩
    obtain ⟨frame, hframe, hdepth⟩ := hframe
    exact ⟨c, frame, rfl, hframe, hdepth⟩

theorem Raise.aside_run (x : Raise) (k : ContextId) : Run.Aside (x.run k) := by
  cases x with
  | fail code g => exact Run.aside_fail k code g
  | io e g => exact Run.aside_fail k e.code _
  | noMemory => exact Run.aside_failNoMemory k

namespace Calling

variable {marks : List Mark}

theorem exec_eq (h : Calling active run w begun marks r w' begun') : run.exec w = (r, w') := by
  induction h with
  | aside hexec _ => exact hexec
  | raise hexec => exact hexec
  | bind _ _ ih ih' => rw [Run.exec_bind_ok ih, ih']
  | stop _ ih => rw [Run.exec_bind_error ih]
  | attempt _ ih => rw [Run.exec_attempt, ih]
  | @protect α active k detail body c call w w₁ w₂ w' begun begun' marks r how result _ henter _ hhow
      hleave ih =>
    have hattempt : (Run.attempt body).exec w₁ = (.ok how, w₂) := by
      rw [Run.exec_attempt, ih, hhow]
    exact (Run.exec_bind_ok henter).trans ((Run.exec_bind_ok hattempt).trans hleave)
  | @abort α active k detail body c call w w₁ w₂ begun begun' marks _ henter _ ih =>
    have hattempt : (Run.attempt body).exec w₁ = (.error .abort, w₂) := by
      rw [Run.exec_attempt, ih]
      rfl
    exact (Run.exec_bind_ok henter).trans (Run.exec_bind_error hattempt)

/-- A run that performs no end of a call is a piece. -/
theorem of_performs {steps : List Step} (h : Performs run w steps r w')
    (hs : ∀ s ∈ steps, ¬ s.op.IsCall) : Calling active run w begun [] r w' begun :=
  .aside h.exec_eq fun _ => h.trail.keepsFrames hs

/-- A call of a context that is alive is put together from its body, in whatever way it ends. -/
theorem exists_protect {body : Run α} (hc : w.context? k = some c) (detail : Detail)
    (hbody : ∀ w₁, ∃ marks r w₂ begun', Calling (⟨begun.length, k⟩ :: active) body w₁
      (begun ++ [active]) marks r w₂ begun') :
    ∃ marks result w' begun',
      Calling active (Run.protect k detail body) w begun marks result w' begun' := by
  rcases henter : (Run.enterCall k detail).exec w with ⟨e | report | call, w₁⟩
  · -- the process ends, as there is no room for the boundary and nobody to report to
    have he : e = .abort := by_contra fun he => Run.exec_enterCall_ne_error he henter
    exact ⟨_, _, _, _, .aside (Run.exec_bind_error henter) fun hr => absurd (by rw [he]) hr⟩
  · have hledger := (Run.gains_refusedCall henter).ledger
    exact ⟨_, _, _, _, .aside (Run.exec_bind_ok henter) fun _ => hledger ▸ .refl _⟩
  · obtain ⟨marks, r, w₂, begun', hbody⟩ := hbody w₁
    rcases hhow : Run.attempted r with e | how
    · have hr : r = .error .abort := by
        rw [← Run.attempted_eq_abort_iff, hhow, Run.eq_abort_of_attempted hhow]
      exact ⟨_, _, _, _, .abort hc henter (hr ▸ hbody)⟩
    · exact ⟨_, _, _, _, .protect hc henter hbody hhow rfl⟩

/-- In the calls that are active a run leaves sound marks, and the frames as they were, unless
    the process ends. -/
theorem sound (h : Calling active run w begun marks r w' begun') (hw : w.ledger.InCalls active)
    (hb : Nested begun active) :
    begun <+: begun' ∧ (r ≠ .error .abort → w.ledger.KeepsFrames w'.ledger) ∧
      ∀ m ∈ marks, m.Sound begun' := by
  induction h with
  | aside _ hframes => exact ⟨List.prefix_refl _, hframes, by simp⟩
  | @raise active k x w w' begun f hexec =>
    obtain ⟨c, frame, hc, hframe, hdepth⟩ := x.depth_of_exec hexec
    have hk : w.ledger.hold k = some c.hold := World.hold_of_context? hc
    have hactive : frame.depth = depthIn k active := by
      rw [← hw.depth k _ hk, Hold.depth, show c.hold.frame = some frame from hframe]
    refine ⟨List.prefix_refl _, fun _ => ?_, fun m hm => ?_⟩
    · have haside := x.aside_run k w
      rw [hexec] at haside
      rw [haside]
      exact .refl _
    · rw [List.mem_singleton.1 hm]
      exact ⟨hb, hdepth.trans hactive, hdepth ▸ hw.frame k _ frame hk hframe⟩
  | bind _ _ ih ih' =>
    obtain ⟨hbegun, hframes, hmarks⟩ := ih hw hb
    have hframes := hframes (by simp)
    obtain ⟨hbegun', hframes', hmore⟩ := ih' (hw.keep hframes) (hb.mono hbegun)
    exact ⟨hbegun.trans hbegun', fun hr => hframes.trans (hframes' hr),
      List.forall_mem_append.2 ⟨fun m hm => (hmarks m hm).mono hbegun', hmore⟩⟩
  | stop _ ih =>
    obtain ⟨hbegun, hframes, hmarks⟩ := ih hw hb
    exact ⟨hbegun, fun hr => hframes fun he => hr (by cases he; rfl), hmarks⟩
  | attempt _ ih =>
    obtain ⟨hbegun, hframes, hmarks⟩ := ih hw hb
    exact ⟨hbegun, fun hr => hframes (mt Run.attempted_eq_abort_iff.2 hr), hmarks⟩
  | @protect α active k detail body c call w w₁ w₂ w' begun begun' marks r how result hc henter _ hhow
      hleave ih =>
    obtain ⟨houter, hdepth, hw₁, hl⟩ := Run.inCalls_enterCall hw hc begun.length henter
    have hnested : Nested (begun ++ [active]) (⟨begun.length, k⟩ :: active) :=
      ⟨by simp, hb.mono (List.prefix_append _ _)⟩
    obtain ⟨hbegun, hframes, hmarks⟩ := ih hw₁ hnested
    refine ⟨(List.prefix_append _ _).trans hbegun, fun hresult => ?_,
      List.forall_mem_append.2 ⟨hmarks, fun m hm => ?_⟩⟩
    · have hgoes : r ≠ .error .abort := fun he => by rw [he] at hhow; cases hhow
      have hstep := Run.step_of_change (.exit call (how.map fun _ => ()))
        (Run.discard_leaveCall k call how) hleave hresult
      have hframes := hframes hgoes
      rw [hl] at hframes
      rw [hstep]
      exact Ledger.keepsFrames_leave (World.hold_of_context? hc) houter hframes
    · cases how with
      | failed f =>
        rw [List.mem_singleton.1 hm]
        refine ⟨hnested.mono hbegun, fun a b => ?_⟩
        rw [← hdepth]
        exact Run.logs_leaveCall hleave a b
      | returned a => cases hm
      | panicked p => cases hm
  | abort hc henter _ ih =>
    obtain ⟨-, -, hw₁, -⟩ := Run.inCalls_enterCall hw hc _ henter
    obtain ⟨hbegun, -, hmarks⟩ := ih hw₁ ⟨by simp, hb.mono (List.prefix_append _ _)⟩
    exact ⟨(List.prefix_append _ _).trans hbegun, fun hr => absurd rfl hr, hmarks⟩

end Calling

/-! ## When a call warns -/

variable {marks : List Mark} {before after : World}

/-- Where no call is active, no context is in one. -/
theorem Ledger.inCalls_nil (hw : ∀ k c, w.context? k = some c → c.frame = none) :
    w.ledger.InCalls [] where
  depth k h hk := by
    obtain ⟨c, hc, rfl⟩ := Option.map_eq_some_iff.1 hk
    rw [Hold.depth, show c.hold.frame = none from hw k c hc]
    rfl
  frame k h frame hk hframe := by
    obtain ⟨c, hc, rfl⟩ := Option.map_eq_some_iff.1 hk
    rw [show c.hold.frame = none from hw k c hc] at hframe
    cases hframe
  context a ha := absurd ha List.not_mem_nil

/-- A call is deeper than those around it. -/
theorem depthIn_lt (hk : call.context = k) (ha : a ∈ around) (hcall : Nested begun (call :: around))
    (h : Nested begun (a :: rest)) : depthIn k (a :: rest) < depthIn k (call :: around) := by
  obtain ⟨pre, post, rfl⟩ := List.append_of_mem ha
  have hsame : rest = post := h.around_eq hcall.2.drop
  rw [hsame, ← List.cons_append, depthIn_append]
  exact Nat.lt_add_of_pos_left (depthIn_pos List.mem_cons_self hk)

/-- A call that receives a failure warns if it is not as deep as the call in which the failure
    was made, `home`, and tells both depths.  So it does not warn of a failure that was made
    in itself; and it does warn where the two are different calls of one context, and one of
    them was active in the other. -/
theorem crossing_warned (hw : ∀ k c, w.context? k = some c → c.frame = none)
    (h : Calling [] run w [] marks r w' begun) (hmade : .made f k active ∈ marks)
    (hreceived : .received f call around before after ∈ marks) :
    (∀ a b, before.Logs after (.crossed a b) ↔
      a = depthIn k active ∧ b = depthIn call.context (call :: around) ∧ a ≠ b) ∧
    ∃ home, innermost? k active = some home ∧ (before.Warns after → home ≠ call) ∧
      (k = call.context → call ∈ active ∨ home ∈ around → home ≠ call → before.Warns after) := by
  obtain ⟨-, -, hmarks⟩ := h.sound (Ledger.inCalls_nil hw) trivial
  obtain ⟨hactive, hdepth, hne⟩ := hmarks _ hmade
  obtain ⟨hcall, hlogs⟩ := hmarks _ hreceived
  rw [hdepth] at hlogs hne
  have hwarns : before.Warns after ↔ depthIn k active ≠ depthIn call.context (call :: around) :=
    ⟨fun ⟨a, b, h⟩ => by obtain ⟨rfl, rfl, hab⟩ := (hlogs a b).1 h; exact hab,
      fun h => ⟨_, _, (hlogs _ _).2 ⟨rfl, rfl, h⟩⟩⟩
  obtain ⟨home, hhome⟩ : ∃ home, innermost? k active = some home := by
    obtain ⟨a, ha, hk⟩ := List.countP_pos_iff.1 (Nat.pos_of_ne_zero hne)
    exact Option.isSome_iff_exists.1 (List.find?_isSome.2 ⟨a, ha, hk⟩)
  obtain ⟨hk, inside, rest, rfl, hinside⟩ := exists_of_innermost? hhome
  have hhomeDepth : depthIn k (inside ++ home :: rest) = depthIn k (home :: rest) := by
    rw [depthIn_append, hinside, Nat.zero_add]
  rw [hwarns, hhomeDepth]
  refine ⟨by rw [← hhomeDepth]; exact hlogs, home, hhome, ?_, ?_⟩
  · rintro hdiffer rfl
    have hsame : rest = around := hactive.drop.around_eq hcall
    exact hdiffer (by rw [hk, hsame])
  · rintro rfl (hmem | hmem) hother
    · have hrest : call ∈ rest := by
        rcases List.mem_append.1 hmem with hin | hin
        · exact absurd hinside (depthIn_pos hin rfl).ne'
        · exact (List.mem_cons.1 hin).resolve_left (Ne.symm hother)
      exact (depthIn_lt hk hrest hactive.drop hcall).ne'
    · exact (depthIn_lt rfl hmem hcall hactive.drop).ne

/-- A failure that is kept when the call has ended that it was made in, and returned from the
    call around that one. -/
def returnsOutside : Run Unit := do
  let k ← Run.newContext "example"
  let _ ← Run.protect k .code do
    match ← Run.protect k .code (Run.fail k 22 (.literal "stop")) with
    | .ok f => (throw (.failure f) : Run Unit)
    | .error _ => pure ()

/-- The theorem above for a failure that is returned from the call around the one that it was made
    in. -/
theorem crossing_warned_returnsOutside : ∃ marks w begun f call before after,
    Calling [] returnsOutside .start [] marks (.ok ()) w begun ∧
      .received f call [] before after ∈ marks ∧ before.Logs after (.crossed 2 1) := by
  obtain ⟨w, hw⟩ : ∃ w, w = ((Run.newContext "example").exec .start).2 := ⟨_, rfl⟩
  obtain ⟨outer, houter⟩ : ∃ call : ProtectedCall, call = ⟨⟨0, 0, 0⟩, ⟨0, 1, 0⟩, 1, none⟩ := ⟨_, rfl⟩
  obtain ⟨w₁, hw₁⟩ : ∃ w₁, w₁ = ((Run.enterCall 0 .code).exec w).2 := ⟨_, rfl⟩
  obtain ⟨inner, hinner⟩ : ∃ call : ProtectedCall,
    call = ⟨⟨0, 1, 0⟩, ⟨0, 2, 0⟩, 2, some ⟨⟨0, 1, 0⟩, .code, 1⟩⟩ := ⟨_, rfl⟩
  obtain ⟨w₂, hw₂⟩ : ∃ w₂, w₂ = ((Run.enterCall 0 .code).exec w₁).2 := ⟨_, rfl⟩
  obtain ⟨x, hx⟩ : ∃ x : Raise, x = .fail 22 (.literal "stop") := ⟨_, rfl⟩
  obtain ⟨f, hf⟩ : ∃ f : Failure, f = ⟨22, none, none, 2⟩ := ⟨_, rfl⟩
  obtain ⟨w₃, hw₃⟩ : ∃ w₃, w₃ = ((x.run 0).exec w₂).2 := ⟨_, rfl⟩
  obtain ⟨w₄, hw₄⟩ : ∃ w₄, w₄ = ((Run.leaveCall 0 inner (.returned f)).exec w₃).2 := ⟨_, rfl⟩
  have henter : ((Run.enterCall 0 .code).exec w).1 = .ok (.ok outer) := by
    subst houter hw; decide +kernel
  have henter₁ : ((Run.enterCall 0 .code).exec w₁).1 = .ok (.ok inner) := by
    subst hinner hw₁ hw; decide +kernel
  have hraise : ((x.run 0).exec w₂).1 = .ok f := by
    subst hf hx hw₂ hw₁ hw; decide +kernel
  have hleave : ((Run.leaveCall 0 inner (.returned f)).exec w₃).1 = .ok (.ok f) := by
    subst hw₃ hf hx hw₂ hinner hw₁ hw; decide +kernel
  have hunwind : ((Run.leaveCall 0 outer (.failed f : Exit Unit)).exec w₄).1 =
      .ok (.error f.report) := by
    subst hw₄ hw₃ hf hx hw₂ hinner hw₁ houter hw; decide +kernel
  obtain ⟨c, hc⟩ : ∃ c, w.context? 0 = some c := by subst hw; exact ⟨_, rfl⟩
  obtain ⟨c₁, hc₁⟩ : ∃ c, w₁.context? 0 = some c := by
    subst hw₁ hw; exact Option.isSome_iff_exists.1 (by decide +kernel)
  have hnew : Calling [] (Run.newContext "example") .start [] [] (.ok 0) w [] :=
    .of_performs (.op (.newContext "example") rfl (Prod.ext rfl hw.symm) (by simp))
      (by simp [Op.IsCall])
  have hkept : Calling [⟨0, 0⟩] (Run.protect 0 .code (x.run 0)) w₁ [[]] _ (.ok (.ok f)) w₄ _ :=
    .protect hc₁ (Prod.ext henter₁ hw₂.symm) (.raise (Prod.ext hraise hw₃.symm)) rfl
      (Prod.ext hleave hw₄.symm)
  have hrun : Calling [] returnsOutside .start [] _ (.ok ()) _ _ :=
    hnew.bind (.bind (.protect hc (Prod.ext henter hw₁.symm)
      (hx ▸ hkept.bind (.aside rfl fun _ => .refl _)) rfl (Prod.ext hunwind rfl))
        (.aside rfl fun _ => .refl _))
  obtain ⟨marks, begun, w', hrun, hmade, hreceived⟩ : ∃ marks begun w',
      Calling [] returnsOutside .start [] marks (.ok ()) w' begun ∧
        .made f 0 [⟨1, 0⟩, ⟨0, 0⟩] ∈ marks ∧ .received f ⟨0, 0⟩ [] w₄ w' ∈ marks :=
    ⟨_, _, _, hrun, by simp [Exit.marks], by simp [Exit.marks]⟩
  obtain ⟨hlogs, -⟩ := crossing_warned (fun _ _ h => by cases h) hrun hmade hreceived
  exact ⟨marks, w', begun, f, ⟨0, 0⟩, w₄, w', hrun, hreceived, (hlogs 2 1).2 ⟨rfl, rfl, by simp⟩⟩

/-- A failure that is kept when the call has ended that it was made in, and returned from the
    next one. -/
def returnsBeside : Run Unit := do
  let k ← Run.newContext "example"
  match ← Run.protect k .code (Run.fail k 22 (.literal "stop")) with
  | .ok f =>
    let _ ← Run.protect k .code (throw (.failure f) : Run Unit)
  | .error _ => pure ()

/-- A call does not tell a failure of its own from one of a call beside it. -/
theorem unwarned_besideEachOther : ∃ marks w begun f home call before after,
    Calling [] returnsBeside .start [] marks (.ok ()) w begun ∧
      .made f 0 [home] ∈ marks ∧ innermost? 0 [home] = some home ∧
      .received f call [] before after ∈ marks ∧ home ≠ call ∧ ¬ before.Warns after := by
  obtain ⟨w, hw⟩ : ∃ w, w = ((Run.newContext "example").exec .start).2 := ⟨_, rfl⟩
  obtain ⟨first, hfirst⟩ : ∃ call : ProtectedCall, call = ⟨⟨0, 0, 0⟩, ⟨0, 1, 0⟩, 1, none⟩ := ⟨_, rfl⟩
  obtain ⟨w₁, hw₁⟩ : ∃ w₁, w₁ = ((Run.enterCall 0 .code).exec w).2 := ⟨_, rfl⟩
  obtain ⟨x, hx⟩ : ∃ x : Raise, x = .fail 22 (.literal "stop") := ⟨_, rfl⟩
  obtain ⟨f, hf⟩ : ∃ f : Failure, f = ⟨22, none, none, 1⟩ := ⟨_, rfl⟩
  obtain ⟨w₂, hw₂⟩ : ∃ w₂, w₂ = ((x.run 0).exec w₁).2 := ⟨_, rfl⟩
  obtain ⟨w₃, hw₃⟩ : ∃ w₃, w₃ = ((Run.leaveCall 0 first (.returned f)).exec w₂).2 := ⟨_, rfl⟩
  obtain ⟨next, hnext⟩ : ∃ call : ProtectedCall, call = ⟨⟨0, 0, 0⟩, ⟨0, 2, 0⟩, 1, none⟩ := ⟨_, rfl⟩
  obtain ⟨w₄, hw₄⟩ : ∃ w₄, w₄ = ((Run.enterCall 0 .code).exec w₃).2 := ⟨_, rfl⟩
  have henter : ((Run.enterCall 0 .code).exec w).1 = .ok (.ok first) := by
    subst hfirst hw; decide +kernel
  have hraise : ((x.run 0).exec w₁).1 = .ok f := by
    subst hf hx hw₁ hw; decide +kernel
  have hleave : ((Run.leaveCall 0 first (.returned f)).exec w₂).1 = .ok (.ok f) := by
    subst hw₂ hf hx hw₁ hfirst hw; decide +kernel
  have henter₃ : ((Run.enterCall 0 .code).exec w₃).1 = .ok (.ok next) := by
    subst hnext hw₃ hw₂ hf hx hw₁ hfirst hw; decide +kernel
  have hunwind : ((Run.leaveCall 0 next (.failed f : Exit Unit)).exec w₄).1 =
      .ok (.error f.report) := by
    subst hw₄ hnext hw₃ hw₂ hf hx hw₁ hfirst hw; decide +kernel
  obtain ⟨c, hc⟩ : ∃ c, w.context? 0 = some c := by subst hw; exact ⟨_, rfl⟩
  obtain ⟨c₃, hc₃⟩ : ∃ c, w₃.context? 0 = some c := by
    subst hw₃ hw₂ hf hx hw₁ hfirst hw; exact Option.isSome_iff_exists.1 (by decide +kernel)
  have hnew : Calling [] (Run.newContext "example") .start [] [] (.ok 0) w [] :=
    .of_performs (.op (.newContext "example") rfl (Prod.ext rfl hw.symm) (by simp))
      (by simp [Op.IsCall])
  have hkept : Calling [] (Run.protect 0 .code (x.run 0)) w [] _ (.ok (.ok f)) w₃ [[]] :=
    .protect hc (Prod.ext henter hw₁.symm) (.raise (Prod.ext hraise hw₂.symm)) rfl
      (Prod.ext hleave hw₃.symm)
  have hreturned : Calling [] (Run.protect 0 .code (throw (.failure f) : Run Unit)) w₃ [[]] _
      (.ok (.error f.report)) _ _ :=
    .protect hc₃ (Prod.ext henter₃ hw₄.symm) (.aside rfl fun _ => .refl _) rfl (Prod.ext hunwind rfl)
  have hrun : Calling [] returnsBeside .start [] _ (.ok ()) _ _ :=
    hnew.bind (hx ▸ hkept.bind (hreturned.bind (.aside rfl fun _ => .refl _)))
  refine ⟨_, _, _, f, ⟨0, 0⟩, ⟨1, 0⟩, w₄, _, hrun, by simp [Exit.marks], rfl,
    by simp [Exit.marks]; rfl, by simp, ?_⟩
  rintro ⟨a, b, hlogs⟩
  obtain ⟨rfl, rfl, hab⟩ := (Run.logs_leaveCall (Prod.ext hunwind rfl) a b).1 hlogs
  exact hab (by rw [hf, hnext])

end ScopedResources
