/-
  What ends the process.

  A release ends the process if it is an action that panics, the close of a descriptor that
  is not open, or gives up the last reference to a debug lock whose file somebody else has
  closed.  A failure ends it if its context is in no protected call.

  * `Release.Fatal` are the releases that end the process in a world; where a sequence
    meets one, `exec_inSequence_abort`, those before it have run.
  * `Run.Tame` are the runs that never end it; `exec_fail_abort_iff` is about failures.
  * `Op.exec_abort_iff`: an operation ends the process if it comes to a release that is
    fatal, or if it is a failure itself.
-/
import ScopedResources.Proofs.Made
import ScopedResources.Proofs.Sequence

namespace ScopedResources

variable {α β : Type} {w w' : World} {k : ContextId} {lock : LockId} {d : Due Release}
  {due : List (Due Release)}

/-! ## Releases -/

/-- Whether the last reference to a debug lock is left, and somebody else has closed the
    file of the lock. -/
def World.LacksFile (w : World) (lock : LockId) : Prop :=
  ∃ s, w.locks[lock]? = some s ∧ s.references ≤ 1 ∧ ∃ fd, s.file = some fd ∧ w.host.isOpen fd = false

/-- Whether a release fails: an action that panics, and the close of a descriptor that is
    not open. -/
def Release.Fails (w : World) : Release → Prop
  | note _ panics => panics = true
  | close fd => w.host.isOpen fd = false
  | dropContext _ _ | forget _ | restoreName _ | leaveLock _ => False

/-- Whether a release ends the process. -/
def Release.Fatal (w : World) (r : Release) : Prop :=
  r.Fails w ∨ ∃ lock, r = .leaveLock lock ∧ w.LacksFile lock

namespace Run

theorem exec_closeOwned_abort_iff (fd : Int) (w : World) :
    ((closeOwned fd).exec w).1 = .error .abort ↔ w.host.isOpen fd = false := by
  rw [closeOwned, exec_bind_ok (exec_host _ w), Host.exec_close]
  by_cases ho : w.host.isOpen fd = true
  · rw [if_pos ho]
    exact iff_of_false (ne_abort_of_ok rfl) (by simp [ho])
  · rw [if_neg ho]
    exact iff_of_true rfl (by simpa using ho)

theorem exec_dropLock_abort_iff (lock : LockId) (w : World) :
    ((dropLock lock).exec w).1 = .error .abort ↔ w.LacksFile lock := by
  rw [dropLock, exec_bind_ok (exec_get w), World.LacksFile]
  rcases hs : w.locks[lock]? with _ | ⟨path, file, level, references⟩
  · exact iff_of_false (ne_abort_of_ok rfl) (by simp)
  dsimp only
  rw [exec_bind_ok (exec_modify _ _)]
  by_cases hlast : references - 1 = 0
  · rw [if_pos hlast]
    have hle : references ≤ 1 := by omega
    rcases file with _ | fd
    · exact iff_of_false (ne_abort_of_ok rfl) (by simp)
    · dsimp only
      rw [exec_bind_ok (exec_host _ _), Host.exec_close]
      by_cases ho : w.host.isOpen fd = true
      · rw [if_pos ho]
        exact iff_of_false (ne_abort_of_ok rfl) (by simp [ho])
      · rw [if_neg ho]
        exact iff_of_true rfl (by simp [hle, ho])
  · rw [if_neg hlast]
    exact iff_of_false (ne_abort_of_ok rfl) (by simp; omega)

theorem lacksFile_leaving {path : Bytes} {file : Option Nat} {level : UInt32} {references : Nat}
    (hs : w.locks[lock]? = some ⟨path, file, level, references⟩) (level' : UInt32) {host : Host}
    (hd : host.descriptors = w.host.descriptors) :
    World.LacksFile { w with
        locks := w.locks.setIfInBounds lock ⟨path, file, level', references⟩, host } lock ↔
      w.LacksFile lock := by
  have hset : (w.locks.setIfInBounds lock ⟨path, file, level', references⟩)[lock]? =
      some ⟨path, file, level', references⟩ :=
    Array.getElem?_setIfInBounds_self_of_lt (Array.getElem?_eq_some_iff.1 hs).1
  unfold World.LacksFile
  simp only [hset, hs, World.isOpen_congr hd, Option.some.injEq, exists_eq_left']

/-- An acquisition ends the process where the reference does that it gives up. -/
theorem exec_leaveLock_abort_iff (lock : LockId) (w : World) :
    ((leaveLock lock).exec w).1 = .error .abort ↔ w.LacksFile lock := by
  rw [leaveLock, exec_bind_ok (exec_get w)]
  rcases hs : w.locks[lock]? with _ | ⟨path, file, level, references⟩
  · exact iff_of_false (ne_abort_of_ok rfl) (by simp [World.LacksFile, hs])
  dsimp only
  rw [exec_bind_ok (exec_modify _ _)]
  have hleaving : ∀ {host : Host}, host.descriptors = w.host.descriptors → _ :=
    lacksFile_leaving hs (level - 1)
  split
  · rcases file with _ | fd
    · exact (exec_dropLock_abort_iff lock _).trans (hleaving rfl)
    · dsimp only
      rw [exec_bind_ok (exec_host _ _)]
      exact (exec_dropLock_abort_iff lock _).trans (hleaving (Host.keeps_unlock fd w.host))
  · exact (exec_dropLock_abort_iff lock _).trans (hleaving rfl)

/-- A release ends the process if it is fatal; one that drops a context is only noted here. -/
theorem exec_release_abort_iff (k : ContextId) (d : Due Release) (w : World) :
    ((release (fun _ => pure ()) k d).exec w).1 = .error .abort ↔ d.release.Fatal w := by
  rw [release, exec_bind_ok (show (modify _ : Run Unit).exec w = (.ok (), w.note d) from rfl)]
  obtain ⟨i, r⟩ := d
  rw [Release.Fatal]
  cases r with
  | note label panics =>
    cases panics
    · exact iff_of_false (ne_abort_of_ok rfl) (by simp [Release.Fails])
    · exact iff_of_true rfl (.inl rfl)
  | close fd =>
    refine (exec_closeOwned_abort_iff fd _).trans ?_
    simp [Release.Fails, World.note]
  | leaveLock lock =>
    refine (exec_leaveLock_abort_iff lock _).trans ?_
    simp [Release.Fails, World.LacksFile, World.note]
  | dropContext label victim | forget payload | restoreName previous =>
    exact iff_of_false (ne_abort_of_ok rfl) (by simp [Release.Fails])

/-- Where a sequence ends the process, one of its releases does, after those before it have
    run. -/
theorem exec_inSequence_abort : ∀ {due : List (Due Release)} {w : World},
    ((inSequence due).exec w).1 = .error .abort → ∃ pre d post, due = pre ++ d :: post ∧
      ((inSequence pre).exec w).1 = .ok () ∧ d.release.Fatal (w.after pre) ∧
        (w.after due).journal.ran = d :: (pre.reverse ++ w.journal.ran) := by
  intro due
  induction due with
  | nil => intro w h; cases h
  | cons d due ih =>
    intro w h
    have hran := ran_release_skip 0 d w
    have hfatal := exec_release_abort_iff 0 d w
    rw [World.after, inSequence_cons]
    rw [inSequence_cons] at h
    rcases hd : (release (fun _ => pure ()) 0 d).exec w with ⟨e | _, w₁⟩ <;> rw [hd] at hran hfatal
    · rw [exec_bind_error hd] at h ⊢
      exact ⟨[], d, due, rfl, rfl, hfatal.1 h, hran⟩
    · rw [exec_bind_ok hd] at h ⊢
      obtain ⟨pre, e, post, rfl, hpre, he, hran'⟩ := ih h
      have hcons : (inSequence (d :: pre)).exec w = (inSequence pre).exec w₁ := by
        rw [inSequence_cons, exec_bind_ok hd]
      refine ⟨d :: pre, e, post, rfl, by rw [hcons]; exact hpre, ?_, ?_⟩
      · rw [World.after, hcons]
        exact he
      · refine hran'.trans ?_
        rw [hran, List.reverse_cons, List.append_assoc]
        rfl

/-- A sequence ends the process where one of its releases is fatal when it has its turn. -/
theorem exec_inSequence_of_fatal {pre post : List (Due Release)} (hd : d.release.Fatal (w.after pre)) :
    ((inSequence (pre ++ d :: post)).exec w).1 = .error .abort := by
  rw [inSequence_append]
  rcases hpre : (inSequence pre).exec w with ⟨e | _, w₁⟩
  · rw [exec_bind_error hpre]
    have h := exec_inSequence pre w
    rw [hpre] at h
    exact congrArg Except.error (Except.error.inj (h.resolve_right fun h => by cases h.1))
  · rw [World.after, hpre] at hd
    rw [exec_bind_ok hpre, inSequence_cons]
    exact congrArg Prod.fst
      (exec_bind_error (Prod.ext ((exec_release_abort_iff 0 d w₁).2 hd) rfl))

/-- The releases of a sequence that have run are the first ones. -/
theorem ran_after (w : World) (due : List (Due Release)) : ∃ done rest, due = done ++ rest ∧
    (w.after due).journal.ran = done.reverse ++ w.journal.ran := by
  rcases exec_inSequence due w with habort | ⟨-, hran⟩
  · obtain ⟨pre, d, rest, rfl, -, -, hran⟩ := exec_inSequence_abort habort
    exact ⟨pre ++ [d], rest, by simp, by rw [hran, List.reverse_append]; rfl⟩
  · exact ⟨due, [], (List.append_nil due).symm, hran⟩

/-! ## Failures -/

/-- A run that does not end the process and runs no release. -/
def Tame (run : Run α) : Prop :=
  ∀ w : World, (run.exec w).1 ≠ .error .abort ∧ (run.exec w).2.journal.ran = w.journal.ran

theorem tame_pure (a : α) : Tame (pure a : Run α) := fun w => ⟨by simp, rfl⟩

theorem tame_failure (f : Failure) : Tame (throw (.failure f) : Run α) := fun w => ⟨by simp, rfl⟩

theorem Tame.bind {x : Run α} {f : α → Run β} (hx : Tame x) (hf : ∀ a, Tame (f a)) :
    Tame (x >>= f) := by
  intro w
  have h := hx w
  rw [exec_bind]
  rcases hr : x.exec w with ⟨e | a, w'⟩ <;> rw [hr] at h
  · exact ⟨fun he => h.1 (by cases he; rfl), h.2⟩
  · exact ⟨(hf a w').1, (hf a w').2.trans h.2⟩

theorem tame_view (k : ContextId) (f : Context → α) : Tame (view k f) :=
  fun _ => ⟨ne_abort_of_ok rfl, rfl⟩

theorem tame_get : Tame (get : Run World) := fun _ => ⟨ne_abort_of_ok rfl, rfl⟩

theorem tame_modify {f : World → World} (h : ∀ w, (f w).journal.ran = w.journal.ran) :
    Tame (modify f : Run Unit) :=
  fun w => ⟨ne_abort_of_ok rfl, h w⟩

theorem tame_onContext (k : ContextId) (f : Context → α × Context) : Tame (onContext k f) :=
  fun w => ⟨ne_abort_of_ok rfl, (quiet_onContext k f w).ran⟩

theorem tame_host (call : Host.Call α) : Tame (host call) :=
  fun _ => ⟨ne_abort_of_ok rfl, rfl⟩

theorem tame_log (e : Event) : Tame (log e) :=
  fun w => ⟨ne_abort_of_ok rfl, (alike_record w e).ran⟩

theorem tame_render (f : Format) : Tame (render f) := by
  cases f with
  | literal text => exact tame_pure _
  | rendered written refused => exact (tame_modify fun _ => rfl).bind fun _ => tame_pure _

/-- What a run does that goes on without ending the process does not matter. -/
theorem exec_bind_abort_iff {x : Run α} {f : α → Run β} (hf : ∀ a, Tame (f a)) (w : World) :
    ((x >>= f).exec w).1 = .error .abort ↔ (x.exec w).1 = .error .abort := by
  rw [exec_bind]
  rcases x.exec w with ⟨e | a, w'⟩
  · exact ⟨fun h => by cases h; rfl, fun h => by cases h; rfl⟩
  · exact iff_of_false (hf a w').1 (by simp)

theorem exec_activeFrame_abort_iff (k : ContextId) (code : Int) (f : Format) (w : World) :
    ((activeFrame k code f).exec w).1 = .error .abort ↔ (w.context k).frame = none := by
  rw [activeFrame, exec_bind_ok (show (view k (·.frame)).exec w = (.ok (w.context k).frame, w) from rfl)]
  rcases (w.context k).frame with _ | frame
  · exact iff_of_true rfl rfl
  · exact iff_of_false (ne_abort_of_ok rfl) (by simp)

theorem exec_fail_abort_iff (k : ContextId) (code : Int) (f : Format) (w : World) :
    ((fail k code f).exec w).1 = .error .abort ↔ (w.context k).frame = none := by
  refine (exec_bind_abort_iff (fun frame => ?_) w).trans (exec_activeFrame_abort_iff k code f w)
  split
  · exact (tame_render f).bind fun _ => (tame_view k _).bind fun _ =>
      (tame_log _).bind fun _ => tame_pure _
  · exact (tame_log _).bind fun _ => tame_pure _

theorem exec_failNoMemory_abort_iff (k : ContextId) (w : World) :
    ((failNoMemory k).exec w).1 = .error .abort ↔ (w.context k).frame = none := by
  refine (exec_bind_abort_iff (fun frame => ?_) w).trans (exec_activeFrame_abort_iff k _ _ w)
  split
  · exact (tame_view k _).bind fun _ => tame_pure _
  · exact tame_pure _

theorem exec_throwing_abort_iff (f : Run Failure) (w : World) :
    ((throwing f : Run α).exec w).1 = .error .abort ↔ (f.exec w).1 = .error .abort :=
  exec_bind_abort_iff (fun f => tame_failure f) w

end Run

/-! ## Operations -/

/-- Whether there is no room for what a change adds, and no protected call to tell. -/
def Change.Refused : Change → Hold → Prop
  | push, h | enter _, h => h.tree.push.1 = none ∧ h.frame = none
  | reserve, h => h.tree.reserve.1 = none ∧ h.frame = none
  | pop, _ | destroy _, _ | leave _, _ | commit _ _, _ | write _ _ _, _ | exit _ _, _ => False

def Op.Refused (l : Ledger) : Op → Prop
  | newContext _ | dropContext _ => False
  | change k c => c.Refused (l.answer k)

/-- Whether an operation comes to a release of which `P` holds in the world in which it is
    its turn. -/
def Op.Meets (o : Op) (w : World) (P : World → Release → Prop) : Prop :=
  ∃ pre d post, (o.step w.ledger).ran = (pre ++ d :: post).reverse ++ w.journal.ran ∧
    P (w.after pre) d.release

namespace Run

theorem exec_onTree_frame (k : ContextId) (f : Tree Release → α × Tree Release) (w : World) :
    ∃ w₁, (onTree k f).exec w = (.ok (f (w.context k).tree).1, w₁) ∧
      (w₁.context k).frame = (w.context k).frame := by
  obtain ⟨hr, hl⟩ := exec_onTree k f w
  exact ⟨_, Prod.ext hr rfl, frame_of_onTree hl⟩

theorem exec_reserve_abort_iff (k : ContextId) (w : World) :
    ((reserve k).exec w).1 = .error .abort ↔
      (w.context k).tree.reserve.1 = none ∧ (w.context k).frame = none := by
  obtain ⟨w₁, hexec, hframe⟩ := exec_onTree_frame k Tree.reserve w
  rw [reserve, exec_bind_ok hexec, ← hframe]
  rcases (w.context k).tree.reserve.1 with _ | i
  · exact (exec_throwing_abort_iff _ w₁).trans ((exec_failNoMemory_abort_iff k w₁).trans (by simp))
  · exact iff_of_false (ne_abort_of_ok rfl) (by simp)

theorem exec_pushScope?_frame (k : ContextId) (w : World) :
    ∃ w₁, (pushScope? k).exec w = (.ok (w.context k).tree.push.1, w₁) ∧
      (w₁.context k).frame = (w.context k).frame :=
  ⟨_, Prod.ext (exec_pushScope? k w).1 rfl, frame_of_onTree (exec_pushScope? k w).2⟩

theorem exec_pushScope_abort_iff (k : ContextId) (w : World) :
    ((pushScope k).exec w).1 = .error .abort ↔
      (w.context k).tree.push.1 = none ∧ (w.context k).frame = none := by
  obtain ⟨w₁, hexec, hframe⟩ := exec_pushScope?_frame k w
  rw [pushScope, exec_bind_ok hexec, ← hframe]
  rcases (w.context k).tree.push.1 with _ | i
  · exact (exec_throwing_abort_iff _ w₁).trans ((exec_failNoMemory_abort_iff k w₁).trans (by simp))
  · exact iff_of_false (ne_abort_of_ok rfl) (by simp)

theorem exec_enterCall_abort_iff (k : ContextId) (detail : Detail) (w : World) :
    ((enterCall k detail).exec w).1 = .error .abort ↔
      (w.context k).tree.push.1 = none ∧ (w.context k).frame = none := by
  obtain ⟨w₁, hexec, hframe⟩ := exec_pushScope?_frame k w
  rw [enterCall, exec_bind_ok (show (view k (·.tree.current)).exec w = _ from rfl),
    exec_bind_ok hexec, ← hframe]
  rcases (w.context k).tree.push.1 with _ | i
  · exact (exec_bind_abort_iff (fun _ => tame_pure _) w₁).trans
      ((exec_failNoMemory_abort_iff k w₁).trans (by simp))
  · exact iff_of_false (ne_abort_of_ok rfl) (by simp)

theorem discard_abort_iff {x : Run α} : ((discard x).exec w).1 = .error .abort ↔
    (x.exec w).1 = .error .abort :=
  exec_bind_abort_iff (fun _ => tame_pure _) w

theorem tame_popScope (k : ContextId) : Tame (popScope k) := by
  refine (tame_view k _).bind fun scope => (tame_view k _).bind fun parent => ?_
  split
  · exact (tame_onContext k _).bind fun _ => (tame_log _).bind fun _ => tame_pure _
  · exact tame_pure _

theorem tame_setByte (k : ContextId) (record : Index) (position : Nat) (byte : UInt8) :
    Tame (setByte k record position byte) := by
  refine (tame_view k _).bind fun block => ?_
  split
  · exact (tame_onContext k _).bind fun _ => tame_pure _
  · exact tame_pure _

theorem Quiet.gentle {x : Run α} (hx : Quiet x) (ht : Tame x) : Gentle x :=
  fun w => ⟨hx w, (ht w).1⟩

end Run

/-- What has run before an operation has run after it. -/
theorem Op.suffix_step : ∀ (o : Op) (l : Ledger), l.ran <:+ (o.step l).ran
  | .newContext _, _ => List.suffix_refl _
  | .dropContext k, l => (Ledger.outlasts_drop k l).suffix
  | .change k c, l => (Ledger.outlasts_releaseAll Ledger.outlasts_drop _ (l.onHold k c.apply)).suffix

theorem Trail.suffix {l l' : Ledger} {steps : List Step} (ht : Trail l steps l') :
    l.ran <:+ l'.ran := by
  induction ht with
  | nil => exact List.suffix_refl _
  | @cons s steps l' hstep _ ih => exact (s.op.suffix_step _).trans (hstep ▸ ih)

namespace Op

/-- Whether an operation is refused and ends the process, or does what its releases do in
    sequence. -/
def Accounted (o : Op) (w : World) : Prop :=
  o.Refused w.ledger ∧ (o.run.exec w).1 = .error .abort ∨
    ¬ o.Refused w.ledger ∧ ∀ due : List (Due Release),
      (o.step w.ledger).ran = due.reverse ++ w.journal.ran →
        Run.Agree (o.run.exec w) ((Run.inSequence due).exec w)

variable {o : Op}

theorem accounted_of_follows (hroom : ¬ o.Refused w.ledger) (h : Run.Follows o.run o.step) :
    o.Accounted w :=
  .inr ⟨hroom, fun due hdue => h w w due (.refl w) hdue⟩

/-- An operation that releases nothing, and is refused where it ends the process. -/
theorem accounted_of_quiet (hquiet : Run.Quiet o.run) (hran : (o.step w.ledger).ran = w.journal.ran)
    (h : (o.run.exec w).1 = .error .abort ↔ o.Refused w.ledger) : o.Accounted w := by
  by_cases hrefused : o.Refused w.ledger
  · exact .inl ⟨hrefused, h.2 hrefused⟩
  · refine .inr ⟨hrefused, fun due hdue => ?_⟩
    obtain rfl : due = [] := by
      rw [hran, List.self_eq_append_left] at hdue
      exact List.reverse_eq_nil_iff.1 hdue
    exact ⟨iff_of_false (mt h.1 hrefused) (Run.ne_abort_of_ok rfl), (hquiet w).alike.symm⟩

theorem accounted : ∀ (o : Op) (w : World), o.Accounted w
  | newContext program, w => accounted_of_follows id
      (((Run.quiet_newContext program).gentle fun _ => ⟨Run.ne_abort_of_ok rfl, rfl⟩).follows fun _ => rfl).discard
  | dropContext k, w => accounted_of_follows id (Run.follows_dropContext k).discard
  | change k .pop, w => accounted_of_follows id
      (((Run.quiet_popScope k).gentle (Run.tame_popScope k)).follows fun _ => rfl).discard
  | change k (.destroy s), w => accounted_of_follows id (Run.follows_destroyScope k s).discard
  | change k (.leave s), w => accounted_of_follows id (Run.follows_leaveScope k s).discard
  | change k (.commit record r), w => accounted_of_follows id (Run.follows_commit k record r).discard
  | change k (.write record position byte), w => accounted_of_follows id
      (((Run.quiet_setByte k record position byte).gentle
        (Run.tame_setByte k record position byte)).follows fun _ => rfl).discard
  | change k (.exit call how), w => accounted_of_follows id (Run.follows_leaveCall k call how).discard
  | change k .push, w => accounted_of_quiet (Run.quiet_pushScope k).discard rfl <| by
      rw [Refused, ← Run.hold_context]
      exact Run.discard_abort_iff.trans (Run.exec_pushScope_abort_iff k w)
  | change k .reserve, w => accounted_of_quiet (Run.quiet_reserve k).discard rfl <| by
      rw [Refused, ← Run.hold_context]
      exact Run.discard_abort_iff.trans (Run.exec_reserve_abort_iff k w)
  | change k (.enter detail), w => accounted_of_quiet (Run.quiet_enterCall k detail).discard rfl <| by
      rw [Refused, ← Run.hold_context]
      exact Run.discard_abort_iff.trans (Run.exec_enterCall_abort_iff k detail w)

/-- An operation ends the process if it is refused, or comes to a release that is fatal. -/
theorem exec_abort_iff (o : Op) (w : World) :
    (o.run.exec w).1 = .error .abort ↔ o.Refused w.ledger ∨ o.Meets w fun w r => r.Fatal w := by
  obtain ⟨new, hnew⟩ := o.suffix_step w.ledger
  have hdue : (o.step w.ledger).ran = new.reverse.reverse ++ w.journal.ran := by
    rw [List.reverse_reverse]
    exact hnew.symm
  rcases o.accounted w with ⟨hrefused, habort⟩ | ⟨hrefused, hagree⟩
  · exact iff_of_true habort (.inl hrefused)
  rw [(hagree _ hdue).abort, or_iff_right hrefused]
  constructor
  · intro habort
    obtain ⟨pre, d, post, hsplit, -, hd, -⟩ := Run.exec_inSequence_abort habort
    exact ⟨pre, d, post, by rw [hdue, hsplit], hd⟩
  · rintro ⟨pre, d, post, hran, hd⟩
    rw [hdue, List.append_cancel_right_eq, List.reverse_inj] at hran
    rw [hran]
    exact Run.exec_inSequence_of_fatal hd

/-- An operation that ends the process on the way stops at the first release that is fatal:
    those before it have run, and those after it have not. -/
theorem exec_abort_of_not_refused (h : o.run.exec w = (.error .abort, w'))
    (hrefused : ¬ o.Refused w.ledger) :
    ∃ pre d post, (o.step w.ledger).ran = (pre ++ d :: post).reverse ++ w.journal.ran ∧
      d.release.Fatal (w.after pre) ∧
      (∀ pre' e post', pre = pre' ++ e :: post' → ¬ e.release.Fatal (w.after pre')) ∧
      w'.journal.ran = d :: (pre.reverse ++ w.journal.ran) := by
  obtain ⟨new, hnew⟩ := o.suffix_step w.ledger
  have hdue : (o.step w.ledger).ran = new.reverse.reverse ++ w.journal.ran := by
    rw [List.reverse_reverse]
    exact hnew.symm
  have hagree := ((o.accounted w).resolve_left fun h => hrefused h.1).2 _ hdue
  rw [h] at hagree
  obtain ⟨pre, d, post, hsplit, hpre, hd, hran⟩ := Run.exec_inSequence_abort (hagree.abort.1 rfl)
  refine ⟨pre, d, post, by rw [hdue, hsplit], hd, ?_, hagree.alike.ran.symm.trans hran⟩
  rintro pre' e post' rfl he
  cases (Run.exec_inSequence_of_fatal he).symm.trans hpre

end Op

end ScopedResources
