/-
  The level, the references and the file of a debug lock.

  The level of a debug lock is the number of its acquisitions that are alive.  Each of
  them refers to the lock, and so do its clones.  As long as there are references, the
  file of the lock stays open once it is.

  * `World.Steady`: a debug lock is left alone, but for clones of it.
  * `Guards`: the level of the lock, its references and its file go together, where it is
    known whether the lock of the file was taken.
  * `sustains_guards` keeps this while releases run that are harmless, and `Guards.op`
    while an operation is made.
-/
import ScopedResources.Proofs.Acquiring
import ScopedResources.Proofs.Conservation
import ScopedResources.Proofs.Contexts
import ScopedResources.Proofs.Releasing

namespace ScopedResources

/-! ## Calls to the host -/

namespace Host

variable {α β : Type} {h h' : Host} {fd : Int} {file : OpenFile}

/-- A call after which, if it is granted, its result satisfies `P`. -/
def Call.Yields (call : Call α) (P : Host → α → Prop) : Prop :=
  ∀ h a, (call.exec h).1 = .ok a → P (call.exec h).2 a

theorem Call.Yields.after {x : Call α} {f : α → Call β} {P : Host → β → Prop}
    (hf : ∀ a, (f a).Yields P) : (x >>= f).Yields P := by
  intro h b hb
  rw [exec_bind] at hb ⊢
  rcases hr : x.exec h with ⟨e | a, h'⟩ <;> rw [hr] at hb
  · cases hb
  · exact hf a h' b hb

theorem yields_refused (e : Errno) (f : α → Call β) (P : Host → β → Prop) :
    ((throw e : Call α) >>= f).Yields P :=
  fun _ _ h => by cases h

theorem openFile?_eq_some_iff :
    h.openFile? fd = some file ↔
      ∃ d, h.descriptor? fd = some d ∧ h.openFiles[d.openFile]? = some file :=
  Option.bind_eq_some_iff

theorem descriptor?_place_freeNumber (h : Host) (d : Descriptor) :
    (h.place h.freeNumber d).descriptor? h.freeNumber = some d := by
  have hle := h.freeNumber_le
  rw [descriptor?, if_pos (by omega), Int.toNat_natCast, place]
  split
  · rename_i hlt
    rw [Array.getElem?_setIfInBounds_self_of_lt hlt]
    rfl
  · rw [Array.getElem?_push, if_pos (by omega)]
    rfl

theorem openFiles_place (h : Host) (number : Nat) (d : Descriptor) :
    (h.place number d).openFiles = h.openFiles := by
  unfold place
  split <;> rfl

/-- A file that was just opened holds no lock. -/
theorem yields_install (file : OpenFile) (closeOnExec : Bool) :
    (install file closeOnExec).Yields fun h' number => h'.openFile? number = some file := by
  intro h number hn
  rw [exec_install] at hn ⊢
  by_cases hx : h.exhausted = true
  · rw [if_pos hx] at hn
    cases hn
  · rw [if_neg hx] at hn ⊢
    cases hn
    refine openFile?_eq_some_iff.2 ⟨_, descriptor?_place_freeNumber
      { h with openFiles := h.openFiles.push file } _, ?_⟩
    rw [openFiles_place, Array.getElem?_push_size]

theorem yields_openFile (path : Bytes) (flags : OpenFlags) (mode : Nat) :
    (openFile path flags mode).Yields fun h' fd =>
      ∃ file, h'.openFile? fd = some file ∧ file.locked = false := by
  unfold openFile
  dsimp only
  split
  · exact yields_refused _ _ _
  · refine .after fun _ => .after fun h => ?_
    split
    · exact yields_refused _ _ _
    · refine .after fun id h number hn => ?_
      exact ⟨_, yields_install _ _ h number hn, rfl⟩

theorem exec_opened (ho : h.openFile? fd = some file) :
    ∃ id, (opened fd).exec h = (.ok (id, file), h) ∧ ∃ d, h.descriptor? fd = some d ∧
      d.openFile = id ∧ id < h.openFiles.size := by
  obtain ⟨d, hd, hfile⟩ := openFile?_eq_some_iff.1 ho
  refine ⟨d.openFile, ?_, d, hd, rfl, (Array.getElem?_eq_some_iff.1 hfile).1⟩
  rw [opened, exec_get_bind, hd]
  dsimp only
  rw [hfile]
  rfl

/-- Taking the lock of an open file, or giving it back. -/
theorem exec_setLocked (ho : h.openFile? fd = some file) (locked : Bool) :
    ∃ h', (opened fd >>= fun (id, file) => update id { file with locked }).exec h = (.ok (), h') ∧
      h'.openFile? fd = some { file with locked } := by
  obtain ⟨id, hexec, d, hd, rfl, hlt⟩ := exec_opened ho
  rw [exec_bind, hexec]
  exact ⟨_, rfl, openFile?_eq_some_iff.2 ⟨d, hd, Array.getElem?_setIfInBounds_self_of_lt hlt⟩⟩

theorem exec_lock (ho : h.openFile? fd = some file) : ∃ h', (lock fd).exec h = (.ok (), h') ∧
    h'.openFile? fd = some { file with locked := true } :=
  exec_setLocked ho true

theorem exec_unlock (ho : h.openFile? fd = some file) : ∃ h', (unlock fd).exec h = (.ok (), h') ∧
    h'.openFile? fd = some { file with locked := false } :=
  exec_setLocked ho false

/-- Closing another descriptor. -/
theorem openFile?_closed {n : Int} (hne : n ≠ fd) :
    ((close n).exec h).2.openFile? fd = h.openFile? fd := by
  rw [exec_close]
  split
  · rename_i ho
    have hdescriptor : { h with
        descriptors := h.descriptors.setIfInBounds n.toNat none }.descriptor? fd =
          h.descriptor? fd := by
      unfold isOpen descriptor? at *
      by_cases h0 : 0 ≤ fd
      · by_cases hn : 0 ≤ n
        · rw [if_pos h0, if_pos h0, Array.getElem?_setIfInBounds_ne (by omega)]
        · rw [if_neg hn] at ho
          cases ho
      · rw [if_neg h0, if_neg h0]
    exact congrArg (Option.bind · fun d => h.openFiles[d.openFile]?) hdescriptor
  · rfl

end Host

/-! ## A debug lock -/

variable {w w' : World} {lock : LockId} {gs : List (Due Release)} {file : Option Nat}
  {taken : Bool} {s : DebugLock}

/-- Whether the file of a debug lock is locked by it. -/
def World.HoldsLock (w : World) (lock : LockId) : Prop :=
  ∃ s fd file, w.locks[lock]? = some s ∧ s.file = some fd ∧ w.host.openFile? fd = some file ∧
    file.locked = true

/-- A debug lock with the acquisitions `gs`: its level is the number of those that are
    alive, each of which refers to it, and as long as there are references its file is
    open, and locked if the lock was taken and the level is not zero. -/
def Guards (lock : LockId) (gs : List (Due Release)) (file : Option Nat) (taken : Bool) (w : World) :
    Prop :=
  ∃ s, w.locks[lock]? = some s ∧ s.file = file ∧
    s.level.toNat + leaves lock w.journal.ran = leaves lock gs ∧ s.level.toNat ≤ s.references ∧
      (0 < s.references → ∀ fd ∈ file, ∃ f, w.host.openFile? fd = some f ∧
        (f.locked = true ↔ taken = true ∧ s.level ≠ 0))

theorem leaves_subperm {ran : List (Due Release)} (h : ∀ d, tally ran d ≤ tally gs d) :
    (ran.filter fun d => d.release = .leaveLock lock).Subperm
      (gs.filter fun d => d.release = .leaveLock lock) := by
  refine List.subperm_ext_iff.2 fun d hd => ?_
  have hr := (List.mem_filter.1 hd).2
  have hforget : ∀ payload, d.release ≠ .forget payload := by
    intro payload he
    rw [he] at hr
    simp at hr
  have hcount : ∀ l : List (Due Release),
      (l.filter fun d => d.release = .leaveLock lock).count d = tally l d := fun l => by
    rw [tally_eq_count hforget, List.count_filter (by simpa using hr)]
  rw [hcount, hcount]
  exact h d

theorem leaves_le {ran : List (Due Release)} (h : ∀ d, tally ran d ≤ tally gs d) :
    leaves lock ran ≤ leaves lock gs := by
  rw [leaves, leaves, List.countP_eq_length_filter, List.countP_eq_length_filter]
  exact (leaves_subperm h).length_le

theorem leaves_cons (d : Due Release) (ran : List (Due Release)) :
    leaves lock (d :: ran) = leaves lock [d] + leaves lock ran :=
  leaves_append lock [d] ran

theorem leaves_reverse (ran : List (Due Release)) : leaves lock ran.reverse = leaves lock ran :=
  List.countP_reverse

/-- A debug lock stays as it is but for its references.  Those of its acquisitions stay,
    and while there are references its file is left alone. -/
structure World.Steady (lock : LockId) (w w' : World) : Prop where
  ledger : w'.ledger = w.ledger
  lock : ∀ s, w.locks[lock]? = some s → ∃ references,
    w'.locks[lock]? = some { s with references } ∧
      (s.level.toNat ≤ s.references → s.level.toNat ≤ references) ∧
        (0 < references → 0 < s.references ∧ ∀ fd ∈ s.file,
          (w'.host.openFile? fd).map (·.locked) = (w.host.openFile? fd).map (·.locked))

theorem World.Steady.refl (w : World) : w.Steady lock w :=
  ⟨rfl, fun s hs => ⟨s.references, hs, id, fun href => ⟨href, fun _ _ => rfl⟩⟩⟩

theorem World.getElem?_setLock (hs : w.locks[lock]? = some s) (s' : DebugLock) :
    (w.locks.setIfInBounds lock s')[lock]? = some s' :=
  Array.getElem?_setIfInBounds_self_of_lt (Array.getElem?_eq_some_iff.1 hs).1

theorem Run.steady_cloneLock (hs : w.locks[lock]? = some s) (href : 0 < s.references) :
    w.Steady lock ((cloneLock lock).exec w).2 where
  ledger := rfl
  lock s' hs' := by
    cases hs.symm.trans hs'
    refine ⟨s.references + 1, ?_, Nat.le_succ_of_le, fun _ => ⟨href, fun _ _ => rfl⟩⟩
    show (w.locks.modify lock _)[lock]? = _
    rw [Array.getElem?_modify, if_pos rfl, hs]
    rfl

/-- The lock gives up a reference, which is not that of an acquisition. -/
theorem Run.steady_dropLock (hs : w.locks[lock]? = some s) (hle : s.level.toNat < s.references) :
    w.Steady lock ((dropLock lock).exec w).2 := by
  have hset := World.getElem?_setLock hs { s with references := s.references - 1 }
  rw [dropLock, exec_bind_ok (exec_get w), hs]
  dsimp only
  rw [exec_bind_ok (exec_modify _ _)]
  by_cases href : s.references - 1 = 0
  · -- the file is closed, where there is one
    have hsteady : ∀ h' : Host, w.Steady lock { w with
        locks := w.locks.setIfInBounds lock { s with references := s.references - 1 }
        host := h' } := fun h' => ⟨rfl, fun s' hs' => by
      cases hs.symm.trans hs'
      exact ⟨_, hset, fun _ => Nat.le_sub_one_of_lt hle, fun h => absurd href (Nat.ne_of_gt h)⟩⟩
    rw [if_pos href]
    split
    · rw [exec_bind_ok (exec_host _ _)]
      split <;> exact hsteady _
    · exact hsteady w.host
  · rw [if_neg href]
    refine ⟨rfl, fun s' hs' => ?_⟩
    cases hs.symm.trans hs'
    exact ⟨_, hset, fun _ => Nat.le_sub_one_of_lt hle, fun h => ⟨by omega, fun _ _ => rfl⟩⟩

namespace Guards

theorem steady (h : Guards lock gs file taken w) (hw : w.Steady lock w') :
    Guards lock gs file taken w' := by
  obtain ⟨s, hs, hfile, hlevel, hle, hopen⟩ := h
  obtain ⟨references, hs', hle', hhost⟩ := hw.lock s hs
  refine ⟨_, hs', hfile, ?_, hle' hle, fun href fd hfd => ?_⟩
  · rw [show w'.journal.ran = w.journal.ran from congrArg Ledger.ran hw.ledger]
    exact hlevel
  · obtain ⟨hpos, hsame⟩ := hhost href
    obtain ⟨f, hf, hlocked⟩ := hopen hpos fd hfd
    have hsome := hsame fd (by rw [hfile]; exact hfd)
    rw [hf] at hsome
    obtain ⟨f', hf', he⟩ := Option.map_eq_some_iff.1 hsome
    exact ⟨f', hf', by rw [he]; exact hlocked⟩

theorem quiet (h : Guards lock gs file taken w) (hq : w.Quiet w') : Guards lock gs file taken w' := by
  obtain ⟨s, hs, hfile, hlevel, hle, hopen⟩ := h
  refine ⟨s, by rw [hq.locks]; exact hs, hfile, by rw [hq.ran]; exact hlevel, hle,
    fun href fd hfd => ?_⟩
  obtain ⟨f, hf, hlocked⟩ := hopen href fd hfd
  refine ⟨f, ?_, hlocked⟩
  rw [hq.host]
  exact hf

/-- The lock gives up the reference of an acquisition that has ended. -/
theorem dropLock (hs : w.locks[lock]? = some s)
    (hlevel : s.level.toNat + leaves lock w.journal.ran = leaves lock gs)
    (hle : s.level.toNat < s.references)
    (hopen : ∀ fd ∈ s.file, ∃ f, w.host.openFile? fd = some f ∧
        (f.locked = true ↔ taken = true ∧ s.level ≠ 0)) :
    Guards lock gs s.file taken ((Run.dropLock lock).exec w).2 ∧
      ((Run.dropLock lock).exec w).2.journal.ran = w.journal.ran :=
  have hsteady := Run.steady_dropLock hs hle
  have h : Guards lock gs s.file taken w := ⟨s, hs, rfl, hlevel, Nat.le_of_lt hle, fun _ => hopen⟩
  ⟨h.steady hsteady, congrArg Ledger.ran hsteady.ledger⟩

/-- An acquisition ends: with the last one the lock is given back. -/
theorem leaveLock (hs : w.locks[lock]? = some s) (hfile : s.file = file)
    (hlevel : s.level.toNat + leaves lock w.journal.ran = leaves lock gs + 1)
    (hpos : 0 < s.level.toNat) (hle : s.level.toNat ≤ s.references)
    (hopen : ∀ fd ∈ file, ∃ f, w.host.openFile? fd = some f ∧
        (f.locked = true ↔ taken = true ∧ s.level ≠ 0)) :
    Guards lock gs file taken ((Run.leaveLock lock).exec w).2 ∧
      ((Run.leaveLock lock).exec w).2.journal.ran = w.journal.ran := by
  obtain ⟨path, file, level, references⟩ := s
  subst hfile
  dsimp only at hlevel hpos hle hopen
  have hone : (level - 1).toNat = level.toNat - 1 := UInt32.toNat_sub_of_le _ _ hpos
  have hset := World.getElem?_setLock hs ⟨path, file, level - 1, references⟩
  obtain ⟨w₁, hw₁⟩ : ∃ w₁, w₁ = { w with
      locks := w.locks.setIfInBounds lock ⟨path, file, level - 1, references⟩ } := ⟨_, rfl⟩
  have hhost : w₁.host = w.host := by rw [hw₁]
  have hjournal : w₁.journal = w.journal := by rw [hw₁]
  have hs₁ : w₁.locks[lock]? = some ⟨path, file, level - 1, references⟩ := by rw [hw₁]; exact hset
  rw [Run.leaveLock, Run.exec_bind_ok (Run.exec_get w), hs]
  dsimp only
  rw [Run.exec_bind_ok (Run.exec_modify _ _), ← hw₁, ← hjournal]
  rw [← hjournal] at hlevel
  rw [← hhost] at hopen
  clear hw₁ hset
  have hlevel' : (level - 1).toNat + leaves lock w₁.journal.ran = leaves lock gs := by omega
  have hle' : (level - 1).toNat < references := by omega
  by_cases hzero : level - 1 = 0
  · rw [if_pos hzero]
    rcases file with _ | fd
    · exact dropLock hs₁ hlevel' hle' (by simp)
    · obtain ⟨f, hf, -⟩ := hopen fd rfl
      obtain ⟨h', hexec, hopen'⟩ := Host.exec_unlock hf
      have hunlock : (Run.host (Host.unlock fd)).exec w₁ = (.ok (.ok ()), { w₁ with host := h' }) := by
        rw [Run.exec_host, hexec]
      dsimp only
      rw [Run.exec_bind_ok hunlock]
      refine dropLock (w := { w₁ with host := h' }) hs₁ hlevel' hle' fun n hn => ?_
      cases hn
      exact ⟨_, hopen', by simp [hzero]⟩
  · rw [if_neg hzero]
    refine dropLock hs₁ hlevel' hle' fun fd hfd => ?_
    obtain ⟨f, hf, hlocked⟩ := hopen fd hfd
    have hne : level ≠ 0 := by
      rintro rfl
      simp at hpos
    exact ⟨f, hf, hlocked.trans (and_congr_right fun _ => iff_of_true hne hzero)⟩

end Guards

/-- Closing what a context owns does nothing to the other descriptors and to the locks. -/
theorem Run.closeOwned_elsewhere (fd : Int) (w : World) :
    ((closeOwned fd).exec w).2.locks = w.locks ∧
      ((closeOwned fd).exec w).2.journal.ran = w.journal.ran ∧
        ∀ n, n ≠ fd → ((closeOwned fd).exec w).2.host.openFile? n = w.host.openFile? n := by
  have hclosed : ∀ n, n ≠ fd → ((Host.close fd).exec w.host).2.openFile? n = w.host.openFile? n :=
    fun n hne => Host.openFile?_closed (Ne.symm hne)
  rw [closeOwned, exec_bind_ok (exec_host _ w)]
  generalize ((Host.close fd).exec w.host).2 = h' at hclosed
  rcases ((Host.close fd).exec w.host).1 with e | _
  · have hstill := still_record { w with host := h' } (.closedTwice ({ w with host := h' }.describe fd))
    refine ⟨hstill.locks, hstill.ran, fun n hne => ?_⟩
    show (World.record { w with host := h' } _).host.openFile? n = _
    rw [World.host_record]
    exact hclosed n hne
  · exact ⟨rfl, rfl, hclosed⟩

namespace Guards

/-- A release that ends no acquisition of the lock is noted. -/
theorem note (h : Guards lock gs file taken w) {d : Due Release} (hd : d.release ≠ .leaveLock lock) :
    Guards lock gs file taken (w.note d) := by
  obtain ⟨s, hs, hfile, hlevel, hle, hopen⟩ := h
  have hzero : leaves lock [d] = 0 := List.countP_eq_zero.2 (by simpa using hd)
  refine ⟨s, hs, hfile, ?_, hle, hopen⟩
  rw [World.ran_note, leaves_cons, hzero, Nat.zero_add]
  exact hlevel

/-- Another descriptor than that of the file is closed. -/
theorem closeOwned (h : Guards lock gs file taken w) {fd : Int} (hne : ∀ n ∈ file, fd ≠ (n : Nat)) :
    Guards lock gs file taken ((Run.closeOwned fd).exec w).2 ∧
      ((Run.closeOwned fd).exec w).2.journal.ran = w.journal.ran := by
  obtain ⟨s, hs, hfile, hlevel, hle, hopen⟩ := h
  obtain ⟨hlocks, hran, hclosed⟩ := Run.closeOwned_elsewhere fd w
  refine ⟨⟨s, by rw [hlocks]; exact hs, hfile, by rw [hran]; exact hlevel, hle,
    fun href n hn => ?_⟩, hran⟩
  rw [hclosed n fun he => hne n hn he.symm]
  exact hopen href n hn

/-- The end of an acquisition is noted, and takes place. -/
theorem noteLeave (h : Guards lock gs file taken w) (i : Index)
    (hleft : leaves lock [⟨i, .leaveLock lock⟩] + leaves lock w.journal.ran ≤ leaves lock gs) :
    Guards lock gs file taken ((Run.leaveLock lock).exec (w.note ⟨i, .leaveLock lock⟩)).2 ∧
      ((Run.leaveLock lock).exec (w.note ⟨i, .leaveLock lock⟩)).2.journal.ran =
        (w.note ⟨i, .leaveLock lock⟩).journal.ran := by
  obtain ⟨s, hs, hfile, hlevel, hle, hopen⟩ := h
  have hone : leaves lock [⟨i, .leaveLock lock⟩] = 1 := by simp [leaves]
  refine leaveLock hs hfile ?_ (by omega) hle (hopen (by omega))
  rw [World.ran_note, leaves_cons, hone]
  omega

end Guards

/-- A release that does nothing to a debug lock and to its file, unless it ends an
    acquisition of that lock. -/
def Release.Harmless (lock : LockId) (file : Option Nat) : Release → Prop
  | .leaveLock l => l = lock
  | .close fd => ∀ n ∈ file, fd ≠ (n : Nat)
  | .note _ _ | .dropContext _ _ | .forget _ | .restoreName _ => True

/-- What is known of the lock is kept by the releases of an operation that are harmless. -/
theorem sustains_guards (taken : Bool) {ran new : List (Due Release)}
    (hR : leaves lock (new ++ ran) ≤ leaves lock gs)
    (hharmless : ∀ d ∈ new, d.release.Harmless lock file) :
    Sustains (fun w => Guards lock gs file taken w ∧ ran <:+ w.journal.ran) (new ++ ran) := by
  have hnew : ∀ {w : World} {d : Due Release}, ran <:+ w.journal.ran →
      d :: w.journal.ran <:+ new ++ ran → d ∈ new := by
    rintro w d ⟨inner, hinner⟩ hturn
    rw [← hinner, ← List.cons_append, List.suffix_append_self_iff] at hturn
    exact hturn.subset (List.mem_cons_self ..)
  have hgrown : ∀ {w : World} (d : Due Release), ran <:+ w.journal.ran →
      ran <:+ (w.note d).journal.ran := fun d hran => hran.trans (List.suffix_cons d _)
  refine .of_noted (fun hw hq => ⟨hw.1.quiet hq, by rw [hq.ran]; exact hw.2⟩)
    (fun d hw _ hd => ?_) (fun {w} i fd hw hturn => ?_) fun {w} i l hw hturn => ?_
  · have hne : d.release ≠ .leaveLock lock := fun he => by rw [he] at hd; exact hd
    exact ⟨hw.1.note hne, hgrown d hw.2⟩
  · have hharm : Release.Harmless lock file (.close fd) := hharmless _ (hnew hw.2 hturn)
    obtain ⟨hguards, hran⟩ := (hw.1.note (d := ⟨i, .close fd⟩) (by simp)).closeOwned hharm
    exact ⟨hguards, by rw [hran]; exact hgrown _ hw.2⟩
  · obtain rfl : l = lock := hharmless _ (hnew hw.2 hturn)
    obtain ⟨before, hbefore⟩ := hturn
    rw [← hbefore, leaves_append, leaves_cons] at hR
    obtain ⟨hguards, hran⟩ := hw.1.noteLeave i (by omega)
    exact ⟨hguards, by rw [hran]; exact hgrown _ hw.2⟩

/-- An operation keeps what is known of the lock, if its releases are harmless. -/
theorem Guards.op {o : Op} {r : Except Stop Unit} {new : List (Due Release)}
    (h : Guards lock (gs ++ o.given) file taken w) (hb : Balanced w.ledger gs)
    (hn : ((gs ++ o.given).map (·.record)).Nodup) (hexec : o.run.exec w = (r, w'))
    (hr : r ≠ .error .abort) (hran : w'.journal.ran = new ++ w.journal.ran)
    (hharmless : ∀ d ∈ new, d.release.Harmless lock file) :
    Guards lock (gs ++ o.given) file taken w' := by
  have hstep : (o.step w.ledger).ran = new ++ w.journal.ran := by
    rw [← o.ledger_of_exec hexec hr]
    exact hran
  have hle : leaves lock (new ++ w.journal.ran) ≤ leaves lock (gs ++ o.given) := by
    rw [← hstep]
    exact leaves_le (hb.step o hn).ran_le
  have hsustains := sustains_guards taken hle hharmless
  have hw' := hsustains.op o w ⟨h, List.suffix_refl _⟩ (by rw [hstep])
  rw [hexec] at hw'
  exact hw'.1

end ScopedResources
