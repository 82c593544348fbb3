/-
  The level of a debug lock counts its acquisitions.

  The level is kept in the lock, and the acquisitions in the records of many contexts.  An
  acquisition raises the level before it is committed, and each release that ends one lowers
  it.  So at any time the level is the number of the records alive that end an acquisition
  when they are torn down, if there are never more of them than the level can hold.

  * `Ledger.acquisitions` are these records, over all contexts.
  * `Counted`: the level counts the acquisitions that were made and have not ended;
    `Counted.step` keeps this by one operation, in the middle of its releases too.
  * `Counting` are the pieces of runs on a debug lock, whatever becomes of its file.
    What a context offers is made of them, by `Run.covering_counting`, and so are
    acquisitions of the lock, `Run.counts_acquireLock`.
  * `level_counts`: what the level is after a run, and that it is never lowered from zero.
-/
import ScopedResources.Proofs.Covering
import ScopedResources.Proofs.Ending
import ScopedResources.Proofs.FileLock

namespace ScopedResources

variable {α : Type} {w w' : World} {lock : LockId} {l l' : Ledger} {k : ContextId} {o i : Index}
  {d : Due Release} {gs : List (Due Release)} {pre steps : List Step}

/-! ## Acquisitions -/

/-- The acquisitions of a debug lock that are alive, over all contexts: the records that end
    one when they are torn down. -/
def Ledger.acquisitions (l : Ledger) (lock : LockId) : Set (ContextId × Index) :=
  {p | ∃ h, l.hold p.1 = some h ∧ h.tree.release? p.2 = some (.leaveLock lock)}

theorem Ledger.has_leaveLock_iff :
    l.has ⟨i, .leaveLock lock⟩ k = true ↔ (k, i) ∈ l.acquisitions lock := by
  rw [Ledger.has, Option.any_eq_true]
  exact exists_congr fun h => and_congr_right fun _ => Tree.holds_iff_release? (by simp)

theorem tally_leaveLock_pos_iff {ds : List (Due Release)} :
    0 < tally ds ⟨i, .leaveLock lock⟩ ↔ (⟨i, .leaveLock lock⟩ : Due Release) ∈ ds :=
  tally_pos_iff_mem (by simp)

theorem leaves_eq_length (ds : List (Due Release)) :
    leaves lock ds = (ds.filter fun d => d.release = .leaveLock lock).length :=
  List.countP_eq_length_filter

namespace Balanced

/-- An acquisition is alive if it was made and has not ended. -/
theorem acquisition_iff (hb : Balanced l gs) :
    (∃ k, (k, i) ∈ l.acquisitions lock) ↔
      (⟨i, .leaveLock lock⟩ : Due Release) ∈ gs ∧ (⟨i, .leaveLock lock⟩ : Due Release) ∉ l.ran := by
  have htotal := hb.total ⟨i, .leaveLock lock⟩
  have hle := tally_le_one hb.linear ⟨i, .leaveLock lock⟩
  rw [Ledger.total] at htotal
  rw [← tally_leaveLock_pos_iff, ← tally_leaveLock_pos_iff]
  constructor
  · rintro ⟨k, hk⟩
    have hpos := hb.waiting_pos (Ledger.has_leaveLock_iff.2 hk)
    omega
  · rintro ⟨hgs, hran⟩
    obtain ⟨k, -, hk⟩ := List.countP_pos_iff.1 (show 0 < l.waiting ⟨i, .leaveLock lock⟩ by omega)
    exact ⟨k, Ledger.has_leaveLock_iff.1 hk⟩

/-- An acquisition is known by its record, which is in one context only. -/
theorem ncard_acquisitions (hb : Balanced l gs) (lock : LockId) : (l.acquisitions lock).ncard =
    ((gs.filter fun d => d.release = .leaveLock lock).toFinset \
      (l.ran.filter fun d => d.release = .leaveLock lock).toFinset).card := by
  rw [← Set.ncard_coe_finset]
  refine Set.ncard_congr (fun p _ => ⟨p.2, .leaveLock lock⟩) (fun p hp => ?_) ?_ fun d hd => ?_
  · have hp := hb.acquisition_iff.1 ⟨p.1, hp⟩
    simpa using hp
  · rintro ⟨k, i⟩ ⟨j, i'⟩ hk hj he
    cases he
    rw [hb.alone (Ledger.has_leaveLock_iff.2 hj) (Ledger.has_leaveLock_iff.2 hk)]
  · obtain ⟨i, r⟩ := d
    simp only [Finset.coe_sdiff, Set.mem_sdiff, Finset.mem_coe, List.mem_toFinset, List.mem_filter,
      decide_eq_true_eq, not_and] at hd
    obtain ⟨⟨hgs, rfl⟩, hran⟩ := hd
    obtain ⟨k, hk⟩ := hb.acquisition_iff.2 ⟨hgs, fun h => hran h rfl⟩
    exact ⟨(k, i), hk, rfl⟩

/-- Of the acquisitions that were made, those that have not ended are alive. -/
theorem leaves_eq (hb : Balanced l gs) (lock : LockId) :
    leaves lock gs = leaves lock l.ran + (l.acquisitions lock).ncard := by
  have hmade : (gs.filter fun d => d.release = .leaveLock lock).Nodup :=
    (List.Nodup.of_map _ hb.linear).filter _
  obtain ⟨ended, hperm, hsub⟩ : (l.ran.filter fun d => d.release = .leaveLock lock).Subperm
      (gs.filter fun d => d.release = .leaveLock lock) := leaves_subperm hb.ran_le
  have hended : (l.ran.filter fun d => d.release = .leaveLock lock).Nodup :=
    hperm.nodup_iff.1 (hmade.sublist hsub)
  have hsubset : (l.ran.filter fun d => d.release = .leaveLock lock).toFinset ⊆
      (gs.filter fun d => d.release = .leaveLock lock).toFinset := fun d hd =>
    List.mem_toFinset.2 (hsub.subset (hperm.mem_iff.2 (List.mem_toFinset.1 hd)))
  have hle : leaves lock l.ran ≤ leaves lock gs := leaves_le hb.ran_le
  rw [hb.ncard_acquisitions, Finset.card_sdiff_of_subset hsubset,
    List.toFinset_card_of_nodup hmade, List.toFinset_card_of_nodup hended, ← leaves_eq_length,
    ← leaves_eq_length]
  omega

end Balanced

/-! ## The level -/

/-- The level of a debug lock. -/
def World.level (w : World) (lock : LockId) : UInt32 :=
  ((w.locks[lock]?).map (·.level)).getD 0

/-- Whether there is a debug lock of a number. -/
def World.HasLock (lock : LockId) (w : World) : Prop :=
  (w.locks[lock]?).isSome

namespace World

theorem level_congr (h : w'.locks = w.locks) : w'.level lock = w.level lock := by
  rw [level, level, h]

theorem level_of_getElem? {s : DebugLock} (hs : w.locks[lock]? = some s) :
    w.level lock = s.level := by
  rw [level, hs]
  rfl

theorem hasLock_of_level_pos (h : 0 < (w.level lock).toNat) : w.HasLock lock := by
  rw [level] at h
  rw [HasLock]
  rcases hs : w.locks[lock]? with _ | s
  · rw [hs] at h
    cases h
  · rfl

theorem HasLock.congr (hw : w.HasLock lock) (h : w'.locks = w.locks) : w'.HasLock lock := by
  rw [HasLock, h]
  exact hw

/-! A debug lock that is changed -/

variable {m : LockId} {f : DebugLock → DebugLock}

theorem HasLock.changed (hw : w.HasLock lock) (h : w'.locks[lock]? =
    if m = lock then (w.locks[lock]?).map f else w.locks[lock]?) : w'.HasLock lock := by
  rw [HasLock, h]
  split
  · rw [Option.isSome_map]
    exact hw
  · exact hw

theorem level_changed (h : w'.locks[lock]? =
    if m = lock then (w.locks[lock]?).map f else w.locks[lock]?) (hf : ∀ s, (f s).level = s.level) :
    w'.level lock = w.level lock := by
  rw [level, level, h]
  split
  · rcases w.locks[lock]? with _ | s
    · rfl
    · exact hf s
  · rfl

end World

theorem World.getElem?_setIfInBounds {l : LockId} {s : DebugLock} (hs : w.locks[l]? = some s)
    (s' : DebugLock) (lock : LockId) : (w.locks.setIfInBounds l s')[lock]? =
      if l = lock then some s' else w.locks[lock]? := by
  rw [Array.getElem?_setIfInBounds, if_pos (Array.getElem?_eq_some_iff.1 hs).1]

namespace Run

theorem exec_lockLevel (lock : LockId) (w : World) :
    (lockLevel lock).exec w = (.ok (w.level lock), w) := by
  show (Except.ok ((w.locks[lock]?).getD _).level, w) = _
  rw [World.level]
  rcases w.locks[lock]? with _ | s <;> rfl

theorem getElem?_dropLock (l lock : LockId) (w : World) : ((dropLock l).exec w).2.locks[lock]? =
    if l = lock then (w.locks[lock]?).map fun s => { s with references := s.references - 1 }
      else w.locks[lock]? := by
  rw [dropLock, exec_bind_ok (exec_get w)]
  rcases hs : w.locks[l]? with _ | s
  · by_cases hl : l = lock
    · rw [if_pos hl, ← hl, hs]
      exact hs
    · rw [if_neg hl]
      rfl
  dsimp only
  rw [exec_bind_ok (exec_modify _ _)]
  have hset : (w.locks.setIfInBounds l { s with references := s.references - 1 })[lock]? =
      if l = lock then (w.locks[lock]?).map fun s => { s with references := s.references - 1 }
        else w.locks[lock]? := by
    rw [World.getElem?_setIfInBounds hs]
    split
    · rename_i hl
      rw [← hl, hs]
      rfl
    · rfl
  split
  · split
    · rw [exec_bind_ok (exec_host _ _)]
      split <;> exact hset
    · exact hset
  · exact hset

theorem getElem?_leaveLock (l lock : LockId) (w : World) : ((leaveLock l).exec w).2.locks[lock]? =
    if l = lock then
        (w.locks[lock]?).map fun s => { s with level := s.level - 1, references := s.references - 1 }
      else w.locks[lock]? := by
  rw [leaveLock, exec_bind_ok (exec_get w)]
  rcases hs : w.locks[l]? with _ | s
  · by_cases hl : l = lock
    · rw [if_pos hl, ← hl, hs]
      exact hs
    · rw [if_neg hl]
      rfl
  dsimp only
  rw [exec_bind_ok (exec_modify _ _)]
  have hdrops : ∀ w₁ : World, w₁.locks = w.locks.setIfInBounds l { s with level := s.level - 1 } →
      ((dropLock l).exec w₁).2.locks[lock]? = if l = lock then
          (w.locks[lock]?).map fun s => { s with level := s.level - 1, references := s.references - 1 }
        else w.locks[lock]? := by
    intro w₁ hw₁
    rw [getElem?_dropLock, hw₁, World.getElem?_setIfInBounds hs]
    split
    · rename_i hl
      rw [← hl, hs]
      rfl
    · rfl
  split
  · split
    · rw [exec_bind_ok (exec_host _ _)]
      exact hdrops _ rfl
    · exact hdrops _ rfl
  · exact hdrops _ rfl

/-- A reference does not count for the level. -/
theorem level_dropLock (l : LockId) (w : World) :
    ((dropLock l).exec w).2.level lock = w.level lock :=
  World.level_changed (getElem?_dropLock l lock w) fun _ => rfl

/-- The end of an acquisition lowers the level of its lock, and of no other. -/
theorem level_leaveLock (l : LockId) (w : World) (hs : l = lock → w.HasLock l) :
    ((leaveLock l).exec w).2.level lock = if l = lock then w.level lock - 1 else w.level lock := by
  rw [World.level, getElem?_leaveLock]
  split
  · rename_i hl
    subst hl
    obtain ⟨s, hs⟩ := Option.isSome_iff_exists.1 (hs rfl)
    rw [hs, World.level_of_getElem? hs]
    rfl
  · rfl

end Run

/-- The level of a debug lock counts those of the acquisitions in `gs` that have not ended. -/
def LevelCounts (lock : LockId) (gs : List (Due Release)) (w : World) : Prop :=
  (w.level lock).toNat + leaves lock w.journal.ran = leaves lock gs

namespace LevelCounts

theorem congr (hw : LevelCounts lock gs w) (hlevel : w'.level lock = w.level lock)
    (hran : w'.journal.ran = w.journal.ran) : LevelCounts lock gs w' := by
  rw [LevelCounts, hlevel, hran]
  exact hw

/-- A release that ends no acquisition of the lock. -/
theorem other (hw : LevelCounts lock gs w) (hd : d.release ≠ .leaveLock lock)
    (hlevel : w'.level lock = w.level lock) (hran : w'.journal.ran = d :: w.journal.ran) :
    LevelCounts lock gs w' := by
  have hzero : leaves lock [d] = 0 := List.countP_eq_zero.2 (by simpa using hd)
  rw [LevelCounts, hlevel, hran, leaves_cons, hzero, Nat.zero_add]
  exact hw

/-- The end of an acquisition, of which no more end than were made. -/
theorem leaveLock (hw : LevelCounts lock gs w)
    (hle : leaves lock (⟨i, .leaveLock lock⟩ :: w.journal.ran) ≤ leaves lock gs) :
    LevelCounts lock gs ((Run.leaveLock lock).exec (w.note ⟨i, .leaveLock lock⟩)).2 := by
  have hran : ((Run.leaveLock lock).exec (w.note ⟨i, .leaveLock lock⟩)).2.journal.ran =
      ⟨i, .leaveLock lock⟩ :: w.journal.ran :=
    congrArg Ledger.ran (Run.aside_leaveLock lock (w.note ⟨i, .leaveLock lock⟩))
  have hone : leaves lock [⟨i, .leaveLock lock⟩] = 1 := by simp [leaves]
  rw [LevelCounts] at hw
  rw [LevelCounts, hran, leaves_cons, hone]
  rw [leaves_cons, hone] at hle
  have hpos : 0 < (w.level lock).toNat := by omega
  have hlowered : ((Run.leaveLock lock).exec (w.note ⟨i, .leaveLock lock⟩)).2.level lock =
      w.level lock - 1 :=
    (Run.level_leaveLock lock (w.note ⟨i, .leaveLock lock⟩) fun _ =>
      World.hasLock_of_level_pos (w := w) hpos).trans (if_pos rfl)
  have hlevel : (w.level lock - 1).toNat = (w.level lock).toNat - 1 :=
    UInt32.toNat_sub_of_le _ _ hpos
  rw [hlowered, hlevel]
  omega

end LevelCounts

theorem sustains_level {R : List (Due Release)} (hR : leaves lock R ≤ leaves lock gs) :
    Sustains (LevelCounts lock gs) R := by
  refine .of_noted (fun hw hq => hw.congr (World.level_congr hq.locks) hq.ran)
    (fun d hw _ hd => hw.other (d := d) ?_ rfl rfl) (fun {w} i fd hw _ => ?_)
    fun {w} i l hw hturn => ?_
  · rintro he
    rw [he] at hd
    exact hd
  · obtain ⟨hlocks, hran, -⟩ := Run.closeOwned_elsewhere fd (w.note ⟨i, .close fd⟩)
    exact hw.other (d := ⟨i, .close fd⟩) (by simp) (World.level_congr hlocks) hran
  · by_cases hl : l = lock
    · subst hl
      exact hw.leaveLock ((hturn.sublist.countP_le (p := fun d => d.release = .leaveLock l)).trans hR)
    · exact hw.other (d := ⟨i, .leaveLock l⟩) (by simpa using hl)
        ((Run.level_leaveLock l (w.note ⟨i, .leaveLock l⟩) fun he => absurd he hl).trans (if_neg hl))
        (congrArg Ledger.ran (Run.aside_leaveLock l (w.note ⟨i, .leaveLock l⟩)))

/-- The level when some of the releases have run that are due. -/
theorem LevelCounts.after {due : List (Due Release)} (h : LevelCounts lock gs w)
    (hle : leaves lock due + leaves lock w.journal.ran ≤ leaves lock gs) :
    LevelCounts lock gs (w.after due) := by
  have hR : leaves lock (due.reverse ++ w.journal.ran) ≤ leaves lock gs := by
    rw [leaves_append, leaves_reverse]
    exact hle
  have hskip : ∀ k : ContextId, Through (LevelCounts lock gs) (due.reverse ++ w.journal.ran)
      (pure () : Run Unit) (fun l => l) :=
    fun _ _ hw _ => hw
  refine (sustains_level hR).through_releaseAll hskip (fun _ => .refl) (fun _ => Run.settles_pure ())
    0 due w h ?_
  rw [Run.Ledger.ran_releaseAll_skip]
  exact List.suffix_refl _

/-! ## One operation -/

/-- Whether an operation comes to the end of an acquisition of a debug lock at level zero. -/
def Step.Underflows (lock : LockId) (s : Step) : Prop :=
  s.op.Meets s.before fun w r => r = .leaveLock lock ∧ w.level lock = 0

/-- The invariant of runs on a debug lock that were given the releases `gs`: the level counts
    the acquisitions that have not ended. -/
structure Counted (lock : LockId) (gs : List (Due Release)) (w : World) : Prop where
  balanced : Balanced w.ledger gs
  level : LevelCounts lock gs w

namespace Counted

/-- The level is the number of the acquisitions that are alive. -/
theorem level_eq (hw : Counted lock gs w) :
    (w.level lock).toNat = (w.ledger.acquisitions lock).ncard := by
  have hleaves := hw.balanced.leaves_eq lock
  have hlevel := hw.level
  rw [show w.ledger.ran = w.journal.ran from rfl] at hleaves
  rw [LevelCounts] at hlevel
  omega

/-- An operation, where the level was raised before it, in the world `w₁`, if it completes an
    acquisition. -/
theorem step (hw : Counted lock gs w) {op : Op} {w₁ : World}
    (hn : ((gs ++ op.given).map (·.record)).Nodup) (hledger : w₁.ledger = w.ledger)
    (hlevel : (w₁.level lock).toNat = (w.level lock).toNat + leaves lock op.given)
    {r : Except Stop Unit} (hexec : op.run.exec w₁ = (r, w')) :
    (r ≠ .error .abort → Counted lock (gs ++ op.given) w') ∧
      ¬ (⟨w₁, op, w'⟩ : Step).Underflows lock := by
  have hb' := hw.balanced.step op hn
  rw [← hledger] at hb'
  have hle : leaves lock (op.step w₁.ledger).ran ≤ leaves lock (gs ++ op.given) :=
    leaves_le hb'.ran_le
  have hcount : LevelCounts lock (gs ++ op.given) w₁ := by
    have hlevel' := hw.level
    rw [LevelCounts] at hlevel' ⊢
    rw [show w₁.journal.ran = w.journal.ran from congrArg Ledger.ran hledger, leaves_append]
    omega
  constructor
  · intro hr
    have hsustains := (sustains_level hle).op op w₁ hcount (List.suffix_refl _)
    rw [hexec] at hsustains
    exact ⟨by rw [op.ledger_of_exec hexec hr]; exact hb', hsustains⟩
  · rintro ⟨pre, d, post, hran, hd, hzero⟩
    change (op.step w₁.ledger).ran = (pre ++ d :: post).reverse ++ w₁.journal.ran at hran
    have hone : leaves lock [d] = 1 := by simp [leaves, hd]
    rw [hran, leaves_append, leaves_reverse, leaves_append, leaves_cons, hone] at hle
    -- those that have run by then do not count for the one that has its turn
    have hlevel' : LevelCounts lock (gs ++ op.given) (w₁.after pre) := hcount.after (by omega)
    obtain ⟨done, rest, rfl, hdone⟩ := Run.ran_after w₁ pre
    rw [LevelCounts, hdone, leaves_append, leaves_reverse] at hlevel'
    rw [leaves_append] at hle
    have hpos : 0 < ((w₁.after (done ++ rest)).level lock).toNat := by omega
    rw [hzero] at hpos
    exact absurd hpos (by decide)

/-- An operation that completes no acquisition. -/
theorem op (hw : Counted lock gs w) {op : Op} (hn : ((gs ++ op.given).map (·.record)).Nodup)
    (hgiven : ∀ d ∈ op.given, d.release ≠ .leaveLock lock) {r : Except Stop Unit}
    (hexec : op.run.exec w = (r, w')) :
    (r ≠ .error .abort → Counted lock (gs ++ op.given) w') ∧
      ¬ (⟨w, op, w'⟩ : Step).Underflows lock := by
  have hzero : leaves lock op.given = 0 :=
    List.countP_eq_zero.2 fun d hd => by simpa using hgiven d hd
  exact hw.step hn rfl (by rw [hzero]; rfl) hexec

end Counted

/-! ## Runs -/

namespace Run

/-- The lock of a file is taken, or that it was refused is logged. -/
theorem exec_takeLock_ok (lock : LockId) (fd : Nat) (w : World) : ∃ w',
    (takeLock lock fd).exec w = (.ok (), w') ∧ w'.ledger = w.ledger ∧ w'.locks = w.locks := by
  rw [takeLock, exec_bind_ok (exec_host _ w)]
  split
  · exact ⟨_, rfl, rfl, rfl⟩
  · exact ⟨_, rfl, ledger_record _ _, (still_record _ _).locks⟩

/-- An acquisition raises the level, whatever becomes of the file. -/
theorem level_raiseLock (hs : w.HasLock lock) : ∃ w',
    (raiseLock lock).exec w = (.ok (), w') ∧ w'.ledger = w.ledger ∧ w'.HasLock lock ∧
      w'.level lock = w.level lock + 1 := by
  obtain ⟨s, hs⟩ := Option.isSome_iff_exists.1 hs
  obtain ⟨file, w₁, hfile, hledger, hs₁, -⟩ := exec_lockFile hs
  have hraises : ∀ w₂ : World, w₂.ledger = w₁.ledger → w₂.locks = w₁.locks → ∃ w',
      (modify fun w => { w with locks := w.locks.modify lock fun s =>
        { s with level := s.level + 1, references := s.references + 1 } } : Run Unit).exec w₂ =
          (.ok (), w') ∧ w'.ledger = w.ledger ∧ w'.HasLock lock ∧
            w'.level lock = w.level lock + 1 := by
    intro w₂ hledger₂ hlocks
    have hraised : (w₂.locks.modify lock fun s =>
        { s with level := s.level + 1, references := s.references + 1 })[lock]? = some { s with
          file := file, level := s.level + 1, references := s.references + 1 } := by
      rw [Array.getElem?_modify, if_pos rfl, hlocks, hs₁]
      rfl
    refine ⟨_, rfl, hledger₂.trans hledger, Option.isSome_iff_exists.2 ⟨_, hraised⟩, ?_⟩
    rw [World.level_of_getElem? hraised, World.level_of_getElem? hs]
  rw [raiseLock, exec_bind_ok hfile, exec_bind_ok (exec_lockLevel lock w₁)]
  split
  · split
    · obtain ⟨w₂, htake, hledger₂, hlocks⟩ := exec_takeLock_ok lock _ w₁
      rw [exec_bind_ok htake]
      exact hraises w₂ hledger₂ hlocks
    · exact hraises w₁ rfl rfl
  · exact hraises w₁ rfl rfl

end Run

/-- The pieces of runs on a debug lock, whatever becomes of its file. -/
inductive Counting (lock : LockId) :
    {α : Type} → Run α → World → List Step → Except Stop α → World → Prop
  /-- A run that is no operation on a context and leaves the level alone. -/
  | aside {α : Type} {run : Run α} {w w' : World} {r : Except Stop α} :
    run.exec w = (r, w') → w'.ledger = w.ledger → w'.level lock = w.level lock →
    Counting lock run w [] r w'
  /-- An operation on a context that is no acquisition of the lock. -/
  | op {α : Type} {run : Run α} {w w' : World} {r : Except Stop α} (o : Op) :
    (∀ d ∈ o.given, d.release ≠ .leaveLock lock) → discard run = o.run → run.exec w = (r, w') →
    Counting lock run w [⟨w, o, w'⟩] r w'
  /-- An acquisition of the lock. -/
  | acquire {k : ContextId} {w w₁ w₂ w' : World} {i : Index} {r : Except Stop Unit} :
    (Run.reserve k).exec w = (.ok i, w₁) → w₁.HasLock lock →
    (Run.raiseLock lock).exec w₁ = (.ok (), w₂) →
    (Run.commit k i (.leaveLock lock)).exec w₂ = (r, w') →
    Counting lock (Run.acquireLock k lock) w
      [⟨w, .change k .reserve, w₁⟩, ⟨w₂, .change k (.commit i (.leaveLock lock)), w'⟩] r w'

/-- Whether fewer than 2^32 acquisitions of a debug lock are alive when one is made, with the
    new one. -/
def Few (lock : LockId) (steps : List Step) : Prop :=
  ∀ s ∈ steps, ∀ k i, s.op = .change k (.commit i (.leaveLock lock)) →
    (s.before.ledger.acquisitions lock).ncard + 1 < 2 ^ 32

variable {α : Type} {run : Run α} {r : Except Stop α}

namespace Counting

/-- Every piece keeps the invariant, and lowers no level from zero. -/
theorem counted (h : Counting lock run w steps r w') (hw : Counted lock (given pre) w)
    (hlin : Linear (pre ++ steps)) (hfew : Few lock (pre ++ steps)) :
    (r ≠ .error .abort → Counted lock (given (pre ++ steps)) w') ∧
      ∀ s ∈ steps, ¬ s.Underflows lock := by
  cases h with
  | aside _ hledger hlevel =>
    rw [List.append_nil]
    exact ⟨fun _ => ⟨hledger ▸ hw.balanced, hw.level.congr hlevel (congrArg Ledger.ran hledger)⟩,
      by simp⟩
  | op o hgiven hrun hexec =>
    obtain ⟨hgoes, hnever⟩ := hw.op hlin.records hgiven (Run.exec_of_discard hrun hexec)
    rw [given_snoc]
    exact ⟨fun hr => hgoes (Run.map_ne_abort hr), by simpa using hnever⟩
  | @acquire k w w₁ w₂ w' i r hreserve hs hraise hcommit =>
    rw [List.append_cons] at hlin hfew ⊢
    have hexec : (Op.change k .reserve).run.exec w = (.ok (), w₁) :=
      Run.exec_of_discard rfl hreserve
    obtain ⟨hgoes, hreserved⟩ := hw.op hlin.of_append.records (fun d hd => by cases hd) hexec
    have hw₁ := hgoes (by simp)
    obtain ⟨w₃, hraise', hledger, -, hlevel⟩ := Run.level_raiseLock hs
    cases hraise.symm.trans hraise'
    -- there is room for the acquisition in the level
    have hroom := hfew ⟨w₂, .change k (.commit i (.leaveLock lock)), w'⟩ (by simp) k i rfl
    change (w₂.ledger.acquisitions lock).ncard + 1 < _ at hroom
    rw [hledger, ← hw₁.level_eq] at hroom
    have hraised := (DebugLock.level_raised hroom).1
    rw [← hlevel] at hraised
    have hone : leaves lock (Op.change k (.commit i (.leaveLock lock))).given = 1 := by
      simp [leaves, Op.given, Change.given]
    have hexec' : (Op.change k (.commit i (.leaveLock lock))).run.exec w₂ = (r.map fun _ => (), w') :=
      Run.exec_of_discard rfl hcommit
    have hn := hlin.records
    rw [given_snoc] at hn
    obtain ⟨hgoes', hnever⟩ := hw₁.step hn hledger (by rw [hone]; exact hraised) hexec'
    rw [given_snoc, given_snoc]
    exact ⟨fun hr => hgoes' (Run.map_ne_abort hr), by simp [hreserved, hnever]⟩

/-- What the pieces perform is one operation after the other. -/
theorem trail (h : Counting lock run w steps r w') (hr : r ≠ .error .abort) :
    Trail w.ledger steps w'.ledger := by
  cases h with
  | aside _ hledger _ => exact hledger ▸ .nil _
  | op o _ hrun hexec =>
    exact .one (o.ledger_of_exec (Run.exec_of_discard hrun hexec) (Run.map_ne_abort hr))
  | @acquire k w w₁ w₂ w' i r hreserve hs hraise hcommit =>
    obtain ⟨w₃, hraise', hledger, -, -⟩ := Run.level_raiseLock hs
    cases hraise.symm.trans hraise'
    have hreserved : w₁.ledger = (Op.change k .reserve).step w.ledger :=
      Run.step_of_change .reserve rfl hreserve (by simp)
    refine .cons (s := ⟨w, _, w₁⟩) hreserved ?_
    show Trail w₁.ledger _ _
    rw [← hledger]
    exact .one (Run.step_of_change (.commit i (.leaveLock lock)) rfl hcommit hr)

theorem exec_eq (h : Counting lock run w steps r w') : run.exec w = (r, w') := by
  cases h with
  | aside hexec _ _ => exact hexec
  | op o _ _ hexec => exact hexec
  | acquire hreserve _ hraise hcommit =>
    rw [Run.acquireLock_eq, Run.exec_bind_ok hreserve, Run.exec_bind_ok hraise, hcommit]

/-- An operation that returns. -/
theorem of_ok (o : Op) (hgiven : ∀ d ∈ o.given, d.release ≠ .leaveLock lock)
    (hrun : discard run = o.run) {a : α} (h : (run.exec w).1 = .ok a) :
    Counting lock run w [⟨w, o, (run.exec w).2⟩] (.ok a) (run.exec w).2 :=
  .op o hgiven hrun (Prod.ext h rfl)

/-- An acquisition that returns. -/
theorem of_acquire {k : ContextId} {i : Index} {w₁ w₂ : World}
    (hreserve : ((Run.reserve k).exec w).1 = .ok i) (h₁ : ((Run.reserve k).exec w).2 = w₁)
    (hs : (w₁.locks[lock]?).isSome) (hraise : ((Run.raiseLock lock).exec w₁).1 = .ok ())
    (h₂ : ((Run.raiseLock lock).exec w₁).2 = w₂)
    (hcommit : ((Run.commit k i (.leaveLock lock)).exec w₂).1 = .ok ()) :
    Counting lock (Run.acquireLock k lock) w
      [⟨w, .change k .reserve, w₁⟩, ⟨w₂, .change k (.commit i (.leaveLock lock)),
        ((Run.commit k i (.leaveLock lock)).exec w₂).2⟩]
      (.ok ()) ((Run.commit k i (.leaveLock lock)).exec w₂).2 :=
  .acquire (Prod.ext hreserve h₁) hs (Prod.ext hraise h₂) (Prod.ext hcommit rfl)

end Counting

theorem Trail.of_made (h : Made (Counting lock) run w steps r w') (hr : r ≠ .error .abort) :
    Trail w.ledger steps w'.ledger := by
  have hkeeps := h.keeps (F := fun _ => True) (fun _ => trivial)
    (fun pre (v : World) => Trail w.ledger pre v.ledger) (fun _ _ => True)
    (fun hpiece ht _ => ⟨fun hr => ht.append (hpiece.trail hr), fun _ => trivial⟩)
    (show Trail w.ledger [] w.ledger from .nil _) trivial
  exact hkeeps.1 hr

/-! ### Runs that are made of these pieces -/

namespace Run

/-- A run on a debug lock that is there, in whatever world. -/
def Counts (lock : LockId) (run : Run α) : Prop :=
  Covered (Counting lock) (World.HasLock lock) run

/-- Releases leave a debug lock where it is. -/
theorem sustains_hasLock (R : List (Due Release)) : Sustains (World.HasLock lock) R :=
  .of_noted (fun hw hq => hw.congr hq.locks) (fun _ hw _ _ => hw)
    (fun {w} i fd hw _ => hw.congr (closeOwned_elsewhere fd (w.note ⟨i, .close fd⟩)).1)
    fun {w} i l hw _ => hw.changed (getElem?_leaveLock l lock (w.note ⟨i, .leaveLock l⟩))

theorem counts_op (o : Op) (hgiven : ∀ d ∈ o.given, d.release ≠ .leaveLock lock)
    (hrun : discard run = o.run) : Counts lock run := by
  intro w hw
  have hlock := (sustains_hasLock (o.step w.ledger).ran).op o w hw (List.suffix_refl _)
  rw [← hrun, exec_discard] at hlock
  exact ⟨⟨_, .piece (.op o hgiven hrun rfl)⟩, hlock⟩

theorem counts_aside (haside : Aside run) (hlocks : ∀ w, (run.exec w).2.locks = w.locks) :
    Counts lock run := fun w hw =>
  ⟨⟨[], .piece (.aside rfl (haside w) (World.level_congr (hlocks w)))⟩, hw.congr (hlocks w)⟩

theorem covering_counting : Covering (Counting lock) (World.HasLock lock) where
  inert h := counts_aside h.aside h.locks
  fail k code f := counts_aside (aside_fail k code f) fun w => (quiet_fail k code f w).locks
  failNoMemory k := counts_aside (aside_failNoMemory k) fun w => (quiet_failNoMemory k w).locks
  op o hgiven := counts_op o fun d hd => hgiven d hd lock

theorem counts_newLock (path : Bytes) : Counts lock (newLock path) := by
  intro w hw
  have hlocks : ((newLock path).exec w).2.locks[lock]? = w.locks[lock]? := by
    obtain ⟨hlt, -⟩ := Array.getElem?_eq_some_iff.1 (Option.isSome_iff_exists.1 hw).choose_spec
    show (w.locks.push _)[lock]? = _
    rw [Array.getElem?_push, if_neg (Nat.ne_of_lt hlt)]
  refine ⟨⟨[], .piece (.aside rfl rfl (by rw [World.level, World.level, hlocks]))⟩, ?_⟩
  rw [World.HasLock, hlocks]
  exact hw

theorem counts_cloneLock (l : LockId) : Counts lock (cloneLock l) := by
  intro w hw
  have hlocks : ((cloneLock l).exec w).2.locks[lock]? = if l = lock then
      (w.locks[lock]?).map fun s => { s with references := s.references + 1 } else w.locks[lock]? :=
    Array.getElem?_modify
  exact ⟨⟨[], .piece (.aside rfl rfl (World.level_changed hlocks fun _ => rfl))⟩, hw.changed hlocks⟩

theorem counts_dropLock (l : LockId) : Counts lock (dropLock l) := fun w hw =>
  ⟨⟨[], .piece (.aside rfl (aside_dropLock l w) (level_dropLock l w))⟩,
    hw.changed (getElem?_dropLock l lock w)⟩

theorem counts_acquireLock (k : ContextId) : Counts lock (acquireLock k lock) := by
  intro w hw
  have hquiet := quiet_reserve k w
  rcases hreserve : (reserve k).exec w with ⟨e | i, w₁⟩ <;> rw [hreserve] at hquiet
  · rw [acquireLock_eq, exec_bind_error hreserve]
    exact ⟨⟨_, .stop (.piece (.op (.change k .reserve) nofun rfl hreserve))⟩, hw.congr hquiet.locks⟩
  · have hw₁ : w₁.HasLock lock := hw.congr hquiet.locks
    obtain ⟨w₂, hraise, -, hw₂, -⟩ := level_raiseLock hw₁
    have hexec : (acquireLock k lock).exec w = (commit k i (.leaveLock lock)).exec w₂ := by
      rw [acquireLock_eq, exec_bind_ok hreserve, exec_bind_ok hraise]
    rw [hexec]
    exact ⟨⟨_, .piece (.acquire hreserve hw₁ hraise rfl)⟩,
      (sustains_hasLock _).through_commit k i _ w₂ hw₂ (List.suffix_refl _)⟩

theorem counts_debugPrint (k : ContextId) (f : Format) : Counts lock (debugPrint k lock f) :=
  covering_counting.debugPrint k (counts_acquireLock k) f

end Run

/-- Where fewer acquisitions are made in all, there is room for each of them in the level. -/
theorem Trail.few (ht : Trail l steps l') (hb : Balanced l []) (hlin : Linear steps)
    (hlt : leaves lock (given steps) < 2 ^ 32) : Few lock steps := by
  intro s hs k i hop
  obtain ⟨before, after, rfl⟩ := List.append_of_mem hs
  obtain ⟨hb₁, -, -⟩ := Balanced.of_split ht hb hlin
  have hleaves := hb₁.leaves_eq lock
  have hone : leaves lock s.op.given = 1 := by simp [hop, leaves, Op.given, Change.given]
  rw [given_append, given_cons, leaves_append, leaves_append, hone] at hlt
  omega

/-! ## Scopes that have acquired a lock -/

/-- A release that waits keeps waiting, or runs. -/
theorem Trail.waits_or_ran (ht : Trail l steps l') (hb : Balanced l gs)
    (hn : ((gs ++ given steps).map (·.record)).Nodup) (hw : l.Waits k o d) :
    l'.Waits k o d ∨ 0 < tally l'.ran d := by
  induction ht generalizing gs with
  | nil => exact .inl hw
  | @cons s steps l' hstep ht ih =>
    rw [given_cons, ← List.append_assoc] at hn
    have hn' := nodup_of_append hn
    rcases hb.waits_step s.op hn' hw with ⟨-, hran⟩ | ⟨-, hw'⟩
    · rw [← hstep] at hran
      obtain ⟨more, hmore⟩ := ht.suffix
      right
      rw [← hmore, tally_append]
      omega
    · rw [hstep] at ih
      exact ih (hb.step s.op hn') hn hw'

/-- Whether an operation completes an acquisition of a debug lock, by the scope `o` of a
    context. -/
def Step.Acquires (s : Step) (lock : LockId) (k : ContextId) (o : Index) : Prop :=
  ∃ i, s.op = .change k (.commit i (.leaveLock lock)) ∧
    s.after.ledger.Waits k o ⟨i, .leaveLock lock⟩

theorem Op.eq_commit_of_given {op : Op} (hd : d ∈ op.given) :
    ∃ k, op = .change k (.commit d.record d.release) := by
  cases op with
  | newContext program => cases hd
  | dropContext k => cases hd
  | change k c =>
    cases c with
    | commit i r =>
      cases List.mem_singleton.1 hd
      exact ⟨k, rfl⟩
    | _ => cases hd

/-- The owner of a record that waits is a scope that is alive. -/
theorem Ledger.Waits.isScope (hl : l.Sound) (hw : l.Waits k o d) :
    ∃ h, l.hold k = some h ∧ h.tree.isScope o = true := by
  obtain ⟨h, r, hk, hi, -⟩ := hw
  obtain ⟨f, hf⟩ := hl.shows k h hk
  obtain ⟨g, hg, -⟩ := hf.owner_mem (Tree.record?_eq_some_iff.1 hi)
  exact ⟨h, hk, hf.mem_scopes_iff.1 (Forest.mem_scopes_of_below? hg)⟩

/-- An acquisition that is alive was made by a scope that is. -/
theorem Trail.acquired (ht : Trail l steps l') (hb : Balanced l []) (hlin : Linear steps)
    (hi : (k, i) ∈ l'.acquisitions lock) : ∃ s ∈ steps, ∃ o, s.Acquires lock k o ∧
      ∃ h, l'.hold k = some h ∧ h.tree.isScope o = true := by
  have hb' : Balanced l' (given steps) := ht.balanced hb hlin
  obtain ⟨hgiven, hran⟩ := hb'.acquisition_iff.1 ⟨k, hi⟩
  rw [← tally_leaveLock_pos_iff] at hran
  obtain ⟨s, hs, hd⟩ := List.mem_flatMap.1 hgiven
  obtain ⟨j, hop⟩ := Op.eq_commit_of_given hd
  obtain ⟨before, after, rfl⟩ := List.append_of_mem hs
  obtain ⟨hb₁, hb₂, hn⟩ := Balanced.of_split ht hb hlin
  obtain ⟨-, hstep, hafter⟩ := ht.split
  have hgiven' : s.op.given = [⟨i, .leaveLock lock⟩] := by rw [hop]; rfl
  have hn' := nodup_of_append hn
  rw [hgiven'] at hn'
  obtain ⟨-, hwaits, hlate⟩ := hb₁.commit_step (k := j) hn'
  rw [← show s.op = .change j (.commit i (.leaveLock lock)) from hop, ← hstep] at hwaits hlate
  by_cases hthere : ∃ h o old, s.before.ledger.hold j = some h ∧ h.tree.record? i = some (o, old)
  · obtain ⟨h, o, old, hk, hrecord⟩ := hthere
    have hw := hwaits h o old hk hrecord
    have hw' := (hafter.waits_or_ran hb₂ hn hw).resolve_right hran
    obtain rfl : k = j := hb'.alone hw'.has (Ledger.has_leaveLock_iff.2 hi)
    exact ⟨s, hs, o, ⟨i, hop, hw⟩, hw'.isScope hb'.sound⟩
  · -- a record that was gone would have been released at once
    have hnone : ∀ h, s.before.ledger.hold j = some h → h.tree.record? i = none := by
      intro h hk
      rw [Option.eq_none_iff_forall_ne_some]
      rintro ⟨o, old⟩ hrecord
      exact hthere ⟨h, o, old, hk, hrecord⟩
    obtain ⟨more, hmore⟩ := hafter.suffix
    rw [← hmore, tally_append, hlate hnone] at hran
    omega

/-- While fewer than 2^32 acquisitions of a debug lock are alive, its level is their number,
    over all contexts, and zero once every scope that has acquired it is gone.  It is never
    lowered from zero. -/
theorem level_counts {host : Host} {identity : String} {log : Option Log}
    (hrun : Made (Counting lock) run (World.new host identity log) steps r w) (hlin : Linear steps)
    (hfew : Few lock steps) :
    (r ≠ .error .abort → ∃ level, (Run.lockLevel lock).exec w = (.ok level, w) ∧
      level.toNat = (w.ledger.acquisitions lock).ncard ∧
      ((∀ s ∈ steps, ∀ k o, s.Acquires lock k o → ∀ c, w.context? k = some c →
        c.tree.isScope o = false) → level = 0)) ∧
      ∀ s ∈ steps, ¬ s.Underflows lock := by
  have hb := balanced_new host identity log
  have hkeeps := hrun.keeps (F := fun steps => Linear steps ∧ Few lock steps)
    (fun h => ⟨h.1.of_append, fun s hs => h.2 s (List.mem_append_left _ hs)⟩)
    (fun pre w => Counted lock (given pre) w ∧ ∀ s ∈ pre, ¬ s.Underflows lock)
    (fun pre _ => ∀ s ∈ pre, ¬ s.Underflows lock)
    (fun hpiece hw hsteps => by
      obtain ⟨hgoes, hnever⟩ := hpiece.counted hw.1 hsteps.1 hsteps.2
      have hnever' := List.forall_mem_append.2 ⟨hw.2, hnever⟩
      exact ⟨fun hr => ⟨hgoes hr, hnever'⟩, fun _ => hnever'⟩)
    (show Counted lock (given []) (.new host identity log) ∧ ∀ s ∈ ([] : List Step),
      ¬ s.Underflows lock from ⟨⟨hb, rfl⟩, by simp⟩)
    ⟨hlin, hfew⟩
  rw [List.nil_append] at hkeeps
  obtain ⟨hgoes, hends⟩ := hkeeps
  by_cases hr : r = .error .abort
  · exact ⟨fun hne => absurd hr hne, hends hr⟩
  obtain ⟨hw, hnever⟩ := hgoes hr
  refine ⟨fun _ => ⟨w.level lock, Run.exec_lockLevel lock w, hw.level_eq, fun hgone => ?_⟩, hnever⟩
  by_contra hne
  have hcard : (w.ledger.acquisitions lock).ncard ≠ 0 := by
    rw [← hw.level_eq]
    exact fun he => hne (UInt32.toNat_inj.1 he)
  obtain ⟨⟨k, i⟩, hi⟩ := Set.nonempty_of_ncard_ne_zero hcard
  obtain ⟨s, hs, o, hacquires, h, hk, hscope⟩ := (Trail.of_made hrun hr).acquired hb hlin hi
  obtain ⟨c, hc, rfl⟩ := Option.map_eq_some_iff.1 hk
  rw [show c.hold.tree.isScope o = c.tree.isScope o from rfl, hgone s hs k o hacquires c hc] at hscope
  cases hscope

/-- A debug lock that two contexts have acquired: one in a scope that has ended and around it,
    and the other one, which was dropped, through a clone. -/
def lockedByTwo : Run Unit := do
  let _ ← Run.newLock (Utf8.encode "lock")
  let _ ← Run.newContext "first"
  let _ ← Run.newContext "second"
  Run.cloneLock 0
  Run.acquireLock 0 0
  let _ ← Run.pushScope 0
  Run.acquireLock 0 0
  Run.acquireLock 1 0
  let _ ← Run.destroyScope 0 ⟨0, 2, 0⟩
  Run.dropContext 1

/-- The theorem above where one of three acquisitions is alive. -/
theorem level_counts_lockedByTwo : ∃ steps w,
    Made (Counting 0) lockedByTwo .start steps (.ok ()) w ∧ Linear steps ∧ Few 0 steps ∧
      (Run.lockLevel 0).exec w = (.ok 1, w) ∧ (w.ledger.acquisitions 0).ncard = 1 ∧
        ∀ s ∈ steps, ¬ s.Underflows 0 := by
  obtain ⟨steps, w, hmade, hlin, hmany⟩ : ∃ steps w,
      Made (Counting 0) lockedByTwo .start steps (.ok ()) w ∧ Linear steps ∧
        leaves 0 (given steps) = 3 := by
    refine ⟨_, _, .bind (.piece (.aside rfl rfl rfl))
      (.bind (.piece (.of_ok (a := 0) (.newContext "first") nofun rfl rfl))
      (.bind (.piece (.of_ok (a := 1) (.newContext "second") nofun rfl rfl))
      (.bind (.piece (.aside rfl rfl rfl))
      (.bind (.piece (.of_acquire (i := ⟨0, 1, 0⟩) rfl rfl (by decide +kernel) (by decide +kernel) rfl
        (by decide +kernel)))
      (.bind (.piece (.of_ok (a := ⟨0, 2, 0⟩) (.change 0 .push) nofun rfl (by decide +kernel)))
      (.bind (.piece (.of_acquire (i := ⟨0, 3, 0⟩) (by decide +kernel) rfl (by decide +kernel)
        (by decide +kernel) rfl (by decide +kernel)))
      (.bind (.piece (.of_acquire (i := ⟨1, 1, 0⟩) (by decide +kernel) rfl (by decide +kernel)
        (by decide +kernel) rfl (by decide +kernel)))
      (.bind (.piece (.of_ok (a := true) (.change 0 (.destroy ⟨0, 2, 0⟩)) nofun rfl
        (by decide +kernel)))
      (.piece (.of_ok (.dropContext 1) nofun rfl (by decide +kernel))))))))))), ?_, ?_⟩
    · unfold Linear
      decide +kernel
    · decide +kernel
  have hfew : Few 0 steps := (Trail.of_made hmade (by simp)).few
    (balanced_new (World.start).host (World.start).identity (World.start).log) hlin (by omega)
  have hw : lockedByTwo.exec .start = (.ok (), w) := hmade.exec_eq id Counting.exec_eq
  have hlevel : (lockedByTwo.exec .start).2.level 0 = 1 := by decide +kernel
  rw [hw] at hlevel
  obtain ⟨hcounts, hnever⟩ := level_counts hmade hlin hfew
  obtain ⟨level, hexec, hcard, -⟩ := hcounts (by simp)
  obtain rfl : level = 1 := by
    have hview := Run.exec_lockLevel 0 w
    rw [hexec] at hview
    exact (Except.ok.inj (congrArg Prod.fst hview)).trans hlevel
  exact ⟨steps, w, hmade, hlin, hfew, hexec, hcard.symm, hnever⟩

end ScopedResources
