/-
  What decides whether releases end the process.

  A release that does not panic closes at most one descriptor and gives up at most one
  reference to a debug lock, and ends the process if the descriptor is not open.  So whether
  several releases end the process is known from the descriptors that are open and from the
  references to the locks, and does not depend on the order of the releases.

  * `Surroundings`: what is known; `Surroundings.after`: what a release leaves of it.
  * `Surroundings.after_comm`, `Surroundings.afterAll_perm`: the order does not matter.
  * `Run.endsAs_inSequence`: releases end the process where nothing is left.
-/
import ScopedResources.Proofs.Custody
import ScopedResources.Proofs.Ending

namespace ScopedResources

/-- Whether a release is an action that panics. -/
def Release.panics : Release → Bool
  | note _ panics => panics
  | dropContext _ _ | close _ | forget _ | restoreName _ | leaveLock _ => false

/-- What decides whether releases end the process: which descriptors are open, and the
    references to each debug lock with its file. -/
@[ext]
structure Surroundings where
  isOpen : Int → Bool
  lock : LockId → Option (Nat × Option Nat)

def World.surroundings (w : World) : Surroundings :=
  ⟨w.host.isOpen, fun lock => (w.locks[lock]?).map fun s => (s.references, s.file)⟩

theorem World.lock_surroundings (w : World) (lock : LockId) :
    w.surroundings.lock lock = (w.locks[lock]?).map fun s => (s.references, s.file) := rfl

namespace Surroundings

variable {h x : Surroundings} {r r' : Release} {c : Option Int} {lock : LockId}

/-- The descriptor that a release closes. -/
def closes (h : Surroundings) : Release → Option Int
  | .close fd => some fd
  | .leaveLock lock => (h.lock lock).bind fun s => if s.1 - 1 = 0 then s.2.map (↑) else none
  | .note _ _ | .dropContext _ _ | .forget _ | .restoreName _ => none

/-- Closes a descriptor, if one is given that is open. -/
def close (h : Surroundings) : Option Int → Option Surroundings
  | some fd => if h.isOpen fd then some { h with isOpen := fun n => h.isOpen n && n != fd } else none
  | none => some h

/-- Gives up the reference that a release has to a debug lock. -/
def lower (h : Surroundings) : Release → Surroundings
  | .leaveLock lock =>
    { h with lock := fun n =>
        if n = lock then (h.lock lock).map fun s => (s.1 - 1, s.2) else h.lock n }
  | .note _ _ | .dropContext _ _ | .close _ | .forget _ | .restoreName _ => h

/-- What a release leaves, unless it ends the process. -/
def after (h : Surroundings) (r : Release) : Option Surroundings :=
  if r.panics then none else (h.close (h.closes r)).map (·.lower r)

theorem lock_of_close (hx : h.close c = some x) : x.lock = h.lock := by
  unfold close at hx
  split at hx
  · split at hx <;> cases hx
    rfl
  · cases hx
    rfl

theorem closes_of_close (hx : h.close c = some x) (r : Release) : x.closes r = h.closes r := by
  cases r with
  | leaveLock lock => rw [closes, closes, lock_of_close hx]
  | _ => rfl

theorem closes_lower (hr : r ≠ r') : (h.lower r).closes r' = h.closes r' := by
  cases r with
  | leaveLock lock =>
    cases r' with
    | leaveLock lock' =>
      have hne : lock' ≠ lock := fun he => hr (by rw [he])
      simp only [closes, lower, if_neg hne]
    | _ => rfl
  | _ => rfl

theorem close_lower (h : Surroundings) (r : Release) (c : Option Int) :
    (h.lower r).close c = (h.close c).map (·.lower r) := by
  cases c with
  | none => rfl
  | some fd =>
    cases r with
    | leaveLock lock =>
      unfold close lower
      dsimp only
      split <;> rfl
    | _ => exact Option.map_id'.symm

theorem lower_leaveLock_of_none (hn : h.lock lock = none) : h.lower (.leaveLock lock) = h := by
  have hsame : (fun n => if n = lock then (h.lock lock).map fun s => (s.1 - 1, s.2) else h.lock n) =
      h.lock := by
    funext n
    split
    · rename_i he
      rw [he, hn]
      rfl
    · rfl
  rw [lower, hsame]

theorem lower_comm (hr : r ≠ r') : (h.lower r).lower r' = (h.lower r').lower r := by
  cases r with
  | leaveLock lock =>
    cases r' with
    | leaveLock lock' =>
      have hne : lock' ≠ lock := fun he => hr (by rw [he])
      simp only [lower, mk.injEq, true_and]
      funext n
      by_cases hn : n = lock
      · subst hn
        simp [hne.symm]
      · by_cases hn' : n = lock'
        · subst hn'; simp [hne]
        · simp [hn, hn']
    | _ => rfl
  | _ => rfl

theorem close_comm (h : Surroundings) (c c' : Option Int) :
    (h.close c).bind (·.close c') = (h.close c').bind (·.close c) := by
  rcases c with _ | a
  · exact (Option.bind_fun_some _).symm
  rcases c' with _ | b
  · exact Option.bind_fun_some _
  have key : ∀ a b : Int, (h.close (some a)).bind (·.close (some b)) =
      if (h.isOpen a && h.isOpen b && b != a) = true then
        some { h with isOpen := fun n => h.isOpen n && n != a && n != b }
      else none := by
    intro a b
    rcases ha : h.isOpen a with _ | _ <;> simp [close, ha]
  simp only [key, Bool.and_comm (h.isOpen a), bne_comm (a := b), Bool.and_right_comm _ (_ != a)]

theorem after_eq (h : Surroundings) (hr : r.panics = false) :
    h.after r = (h.lower r).close (h.closes r) := by
  rw [after, hr, close_lower]
  rfl

/-- Two releases that do not panic, one after the other. -/
theorem after_after (hr : r.panics = false) (hr' : r'.panics = false) (hne : r ≠ r') :
    (h.after r).bind (·.after r') =
      ((h.close (h.closes r)).bind (·.close (h.closes r'))).map fun x => (x.lower r).lower r' := by
  rw [after, hr]
  rcases hx : h.close (h.closes r) with _ | x
  · rfl
  · simp [after, hr', closes_lower hne, closes_of_close hx, close_lower]
    rfl

theorem after_comm (h : Surroundings) (r r' : Release) :
    (h.after r).bind (·.after r') = (h.after r').bind (·.after r) := by
  by_cases hne : r = r'
  · rw [hne]
  rcases hr : r.panics with _ | _
  · rcases hr' : r'.panics with _ | _
    · rw [after_after hr hr' hne, after_after hr' hr (Ne.symm hne), close_comm]
      congr 1
      funext x
      exact lower_comm hne
    · have hnone : ∀ x : Surroundings, x.after r' = none := fun x => if_pos hr'
      simp [hnone]
  · have hnone : ∀ x : Surroundings, x.after r = none := fun x => if_pos hr
    simp [hnone]

/-- What several releases leave, one after the other, unless they end the process. -/
def afterAll (h : Surroundings) (due : List (Due Release)) : Option Surroundings :=
  due.foldl (fun h d => h.bind (·.after d.release)) (some h)

theorem afterAll_perm (h : Surroundings) {due due' : List (Due Release)} (hp : due.Perm due') :
    h.afterAll due = h.afterAll due' :=
  hp.foldl_eq' (fun d _ e _ h => by
    rcases h with _ | h
    · rfl
    · exact h.after_comm d.release e.release) (some h)

end Surroundings

/-! ## What the runs do -/

variable {w v : World} {lock : LockId}

theorem Host.isOpen_closed_eq (h : Host) {fd : Int} (ho : h.isOpen fd = true) :
    { h with descriptors := h.descriptors.setIfInBounds fd.toNat none }.isOpen =
      fun n => h.isOpen n && n != fd := by
  funext n
  rw [Bool.eq_iff_iff, isOpen_closed_iff h ho, Bool.and_eq_true, bne_iff_ne]

theorem surroundings_congr (hl : v.locks = w.locks) (hd : v.host.descriptors = w.host.descriptors) :
    v.surroundings = w.surroundings := by
  refine Surroundings.ext (funext fun n => World.isOpen_congr hd n) ?_
  rw [World.surroundings, World.surroundings, hl]

/-- A lock after a change of its state. -/
theorem surroundings_setLock {s : DebugLock} (hs : w.locks[lock]? = some s) (s' : DebugLock) :
    World.surroundings { w with locks := w.locks.setIfInBounds lock s' } =
      { w.surroundings with lock := fun n =>
          if n = lock then some (s'.references, s'.file) else w.surroundings.lock n } := by
  refine Surroundings.ext rfl (funext fun n => ?_)
  dsimp only [World.surroundings]
  rw [Array.getElem?_setIfInBounds]
  by_cases hn : n = lock
  · rw [if_pos hn.symm, if_pos hn, if_pos (Array.getElem?_eq_some_iff.1 hs).1]
    rfl
  · rw [if_neg (Ne.symm hn), if_neg hn]

namespace Run

/-- A run that ends the process where `left` is nothing, and otherwise leaves what it says. -/
def EndsAs (p : Except Stop Unit × World) : Option Surroundings → Prop
  | none => p.1 = .error .abort
  | some h => p.1 = .ok () ∧ p.2.surroundings = h

theorem endsAs_closing {f : Except Errno Unit → Run Unit} (hok : f (.ok ()) = pure ())
    (herror : ∀ e w, ((f (.error e)).exec w).1 = .error .abort) (fd : Int) (w : World) :
    EndsAs ((host (Host.close fd) >>= f).exec w) (w.surroundings.close (some fd)) := by
  rw [exec_bind_ok (exec_host _ w), Host.exec_close, Surroundings.close]
  by_cases ho : w.host.isOpen fd = true
  · rw [if_pos ho, if_pos (show w.surroundings.isOpen fd = true from ho)]
    dsimp only
    rw [hok]
    exact ⟨rfl, congrArg (fun isOpen => Surroundings.mk isOpen _) (Host.isOpen_closed_eq w.host ho)⟩
  · rw [if_neg ho, if_neg (show ¬ w.surroundings.isOpen fd = true from ho)]
    exact herror _ _

theorem endsAs_dropLock (lock : LockId) {h : Surroundings} (hw : w.surroundings = h) :
    EndsAs ((dropLock lock).exec w) (h.after (.leaveLock lock)) := by
  rw [← hw, Surroundings.after_eq _ rfl, dropLock, exec_bind_ok (exec_get w)]
  have hlock := w.lock_surroundings lock
  rcases hs : w.locks[lock]? with _ | ⟨path, file, level, references⟩ <;> rw [hs] at hlock
  · rw [Surroundings.lower_leaveLock_of_none hlock, Surroundings.closes, hlock]
    exact ⟨rfl, rfl⟩
  · dsimp only
    rw [exec_bind_ok (exec_modify _ _)]
    have hset := surroundings_setLock hs ⟨path, file, level, references - 1⟩
    have hlower : w.surroundings.lower (.leaveLock lock) = World.surroundings
        { w with locks := w.locks.setIfInBounds lock ⟨path, file, level, references - 1⟩ } := by
      rw [hset, Surroundings.lower, hlock]
      rfl
    rw [hlower, Surroundings.closes, hlock, Option.map_some, Option.bind_some]
    by_cases hlast : references - 1 = 0
    · rw [if_pos hlast, if_pos hlast]
      rcases file with _ | fd
      · exact ⟨rfl, rfl⟩
      · exact endsAs_closing rfl (fun _ _ => rfl) fd _
    · rw [if_neg hlast, if_neg hlast]
      exact ⟨rfl, rfl⟩

theorem endsAs_leaveLock (lock : LockId) (w : World) :
    EndsAs ((leaveLock lock).exec w) (w.surroundings.after (.leaveLock lock)) := by
  rw [leaveLock, exec_bind_ok (exec_get w)]
  have hlock := w.lock_surroundings lock
  rcases hs : w.locks[lock]? with _ | ⟨path, file, level, references⟩ <;> rw [hs] at hlock
  · rw [Surroundings.after_eq _ rfl, Surroundings.lower_leaveLock_of_none hlock, Surroundings.closes,
      hlock]
    exact ⟨rfl, rfl⟩
  · have hset := surroundings_setLock hs ⟨path, file, level - 1, references⟩
    have hsame : World.surroundings
        { w with locks := w.locks.setIfInBounds lock ⟨path, file, level - 1, references⟩ } =
          w.surroundings := by
      refine hset.trans (Surroundings.ext rfl (funext fun n => ?_))
      dsimp only
      split
      · rename_i he
        rw [he, hlock]
        rfl
      · rfl
    dsimp only
    rw [exec_bind_ok (exec_modify _ _)]
    split
    · rcases file with _ | fd
      · exact endsAs_dropLock lock hsame
      · dsimp only
        rw [exec_bind_ok (exec_host _ _)]
        refine endsAs_dropLock lock (Eq.trans (surroundings_congr ?_ ?_) hsame)
        · exact rfl
        · exact Host.keeps_unlock fd w.host
    · exact endsAs_dropLock lock hsame

theorem endsAs_release (d : Due Release) (w : World) :
    EndsAs ((release (fun _ => pure ()) 0 d).exec w) (w.surroundings.after d.release) := by
  rw [release, exec_bind_ok (show (modify _ : Run Unit).exec w = (.ok (), w.note d) from rfl)]
  obtain ⟨i, r⟩ := d
  cases r with
  | note label panics =>
    cases panics
    · exact ⟨rfl, rfl⟩
    · exact rfl
  | close fd =>
    have hafter : (w.note ⟨i, .close fd⟩).surroundings.close (some fd) =
        w.surroundings.after (.close fd) := (Surroundings.after_eq (r := .close fd) _ rfl).symm
    exact hafter ▸ endsAs_closing rfl (fun _ _ => rfl) fd _
  | leaveLock lock => exact endsAs_leaveLock lock (w.note _)
  | restoreName previous =>
    have hquiet := quiet_onContext 0 (fun c => ((), { c with program := previous }))
      (w.note ⟨i, .restoreName previous⟩)
    exact ⟨rfl, surroundings_congr hquiet.locks ((congrArg Host.descriptors hquiet.host).trans rfl)⟩
  | dropContext label victim | forget payload => exact ⟨rfl, rfl⟩

/-- A sequence ends the process where nothing is left, and otherwise leaves what its releases do. -/
theorem endsAs_inSequence (due : List (Due Release)) (w : World) :
    EndsAs ((inSequence due).exec w) (w.surroundings.afterAll due) := by
  induction due generalizing w with
  | nil => exact ⟨rfl, rfl⟩
  | cons d due ih =>
    have hd := endsAs_release d w
    rw [inSequence_cons, Surroundings.afterAll, List.foldl_cons, Option.bind_some]
    rcases hx : w.surroundings.after d.release with _ | x <;> rw [hx] at hd
    · rw [exec_bind_error (Prod.ext hd rfl), List.foldl_fixed' fun _ => rfl]
      exact rfl
    · rw [exec_bind_ok (Prod.ext hd.1 rfl), ← hd.2]
      exact ih _

end Run

end ScopedResources
