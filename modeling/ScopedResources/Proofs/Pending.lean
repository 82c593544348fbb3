/-
  What is left to be undone.

  While a run goes on, it has opened descriptors and taken debug locks.  Each of these
  is matched by a release, which is due when a scope is torn down, or is in the hands
  of the run.

  * `Ledger.Spares`, `Ledger.leaves_step`: running releases ends those acquisitions of a
    lock that were due, and no others, as long as no context that holds one is dropped.
  * `World.Advances`: what a change does outside of its context, for the releases that it
    makes due (`Change.advances`).
  * `Pending` is the invariant; `Pending.gain` and `Pending.step` keep it when something
    is acquired, and by a change in the context.
-/
import ScopedResources.Proofs.Conservation
import ScopedResources.Proofs.ProtectedCall
import ScopedResources.Proofs.Region
import ScopedResources.Proofs.Structured

namespace ScopedResources

variable {k : ContextId} {lock : LockId} {w w' w₀ : World} {l l' l'' : Ledger}

/-! ## Acquisitions in other contexts -/

namespace Ledger

/-- The contexts that hold acquisitions of a lock are still alive. -/
def Spares (l l' : Ledger) (lock : LockId) : Prop :=
  ∀ j h i, l.hold j = some h → h.tree.release? i = some (.leaveLock lock) → (l'.hold j).isSome

theorem Spares.of_trans (h : l.Spares l'' lock) (h₁ : Outlasts l l') (h₂ : Outlasts l' l'') :
    l.Spares l' lock ∧ l'.Spares l'' lock := by
  constructor
  · intro j x i hx hi
    obtain ⟨y, hy⟩ := Option.isSome_iff_exists.1 (h j x i hx hi)
    rw [h₂.hold j y hy]
    rfl
  · intro j x i hx hi
    exact h j x i (h₁.hold j x hx) hi

/-- A context that holds no acquisition of a lock gives none up when it is dropped. -/
theorem leaves_dueOf_top {t : Tree Release} {f : Forest Release} (ht : t.Shows f)
    (hi : ∀ i, t.release? i ≠ some (.leaveLock lock)) : leaves lock (dueOf t t.top) = 0 := by
  rw [leaves, List.countP_eq_zero]
  intro d hd hlock
  rw [decide_eq_true_eq] at hlock
  have htally := ht.tally_dueOf_top d
  have hpos : 0 < tally (dueOf t t.top) d := tally_pos_iff.2 ⟨d, hd, rfl⟩
  rcases hh : t.holds d with _ | _
  · rw [htally, hh] at hpos
    exact absurd hpos (by decide)
  · obtain ⟨o, r, hr, hout⟩ := Tree.holds_iff.1 hh
    have hr' : r = .leaveLock lock := by
      rw [hlock] at hout
      rcases r with _ | _ | _ | (_ | _) | _ | _ <;> cases hout
      rfl
    refine hi d.record ?_
    rw [Tree.release?, hr, ← hr']
    rfl

theorem leaves_releaseAll {drop : ContextId → Ledger → Ledger} (hd : ∀ k l, Outlasts l (drop k l))
    (hleaves : ∀ k l, l.Sound → l.Spares (drop k l) lock →
      leaves lock (drop k l).ran = leaves lock l.ran) :
    ∀ (due : List (Due Release)) (l : Ledger), l.Sound → l.Spares (releaseAll drop due l) lock →
      leaves lock (releaseAll drop due l).ran = leaves lock due + leaves lock l.ran
  | [], l, _, _ => (Nat.zero_add _).symm
  | d :: more, l, hl, hs => by
    have hrelease := outlasts_release hd d l
    obtain ⟨hs₁, hs₂⟩ := hs.of_trans hrelease (outlasts_releaseAll hd more _)
    have hnote : leaves lock (release drop d l).ran = leaves lock [d] + leaves lock l.ran := by
      have hnoted : leaves lock (l.note d).ran = leaves lock [d] + leaves lock l.ran :=
        leaves_append lock [d] l.ran
      unfold release at hs₁ ⊢
      split at hs₁
      · rw [hleaves _ _ (hl.of_outlasts (outlasts_note l d)) hs₁, hnoted]
      all_goals exact hnoted
    rw [releaseAll, leaves_releaseAll hd hleaves more _ (hl.of_outlasts hrelease) hs₂, hnote,
      ← Nat.add_assoc, Nat.add_comm (leaves lock more), ← leaves_append]
    rfl

theorem leaves_dropWithin : ∀ (b : Nat) (k : ContextId) (l : Ledger), l.Sound →
    l.Spares (dropWithin b k l) lock → leaves lock (dropWithin b k l).ran = leaves lock l.ran
  | 0, _, _, _, _ => rfl
  | b + 1, k, l, hl, hs => by
    rw [dropWithin] at hs ⊢
    split at hs
    · rename_i h hk
      have hrest := outlasts_releaseAll (outlasts_dropWithin b) (dueOf h.tree h.tree.top) (l.take k)
      obtain ⟨f, hf⟩ := hl.shows k h hk
      have hnone : ∀ i, h.tree.release? i ≠ some (.leaveLock lock) := by
        intro i hi
        -- the context would have been spared
        obtain ⟨x, hx⟩ := Option.isSome_iff_exists.1 (hs k h i hk hi)
        have htaken := hrest.hold k x hx
        rw [hold_take, if_pos rfl] at htaken
        cases htaken
      rw [leaves_releaseAll (outlasts_dropWithin b) (leaves_dropWithin b) _ _
        (hl.of_outlasts (outlasts_take l k)) (hs.of_trans (outlasts_take l k) hrest).2,
        leaves_dueOf_top hf hnone, Nat.zero_add]
      rfl
    · rfl

theorem leaves_step {c : Change} {h : Hold} (hl : l.Sound) (hk : l.hold k = some h)
    (hs : (l.onHold k c.apply).Spares ((Op.change k c).step l) lock) :
    leaves lock ((Op.change k c).step l).ran = leaves lock (c.due h) + leaves lock l.ran := by
  rw [Op.step, answer_of_hold hk] at hs ⊢
  exact leaves_releaseAll outlasts_drop (fun j l => leaves_dropWithin l.count j l) _ _ (hl.onHold k c) hs

end Ledger

/-! ## What a change has done -/

/-- No other context that held an acquisition of a lock has been dropped. -/
def World.Spares (k : ContextId) (w w' : World) (lock : LockId) : Prop :=
  ∀ j, j ≠ k → ∀ h i, w.ledger.hold j = some h → h.tree.release? i = some (.leaveLock lock) →
    (w'.ledger.hold j).isSome

/-- What a change in a context has done that ran the releases `due`. -/
structure World.Advances (k : ContextId) (w w' : World) (due : List (Due Release)) : Prop where
  others : ∀ j, j ≠ k → ∀ h, w'.ledger.hold j = some h → w.ledger.hold j = some h
  files : w.KeepsFiles w'
  opened : ∀ fd, w'.host.isOpen fd = true → w.host.isOpen fd = true
  closed : ∀ d ∈ due, ∀ fd, d.release = .close fd → ¬ w'.host.isOpen fd = true
  level : ∀ (lock : LockId) (s s' : DebugLock), w.locks[lock]? = some s → w'.locks[lock]? = some s' →
    w.Spares k w' lock → s'.level + UInt32.ofNat (leaves lock due) = s.level
  program : ∀ c c', w.context? k = some c → w'.context? k = some c' →
    c'.program = (restored due).getLastD c.program

variable {pre : List Step} {held held' gained : List Release} {due due' into out : List (Due Release)}
  {change : Change} {c c' : Context}

theorem Change.ledger_step (change : Change) {res : Except Stop Unit}
    (hexec : (change.run k).exec w = (res, w')) (hres : res ≠ .error .abort) :
    w'.ledger = (Op.change k change).step w.ledger := by
  have hmoves := Op.moves (.change k change) w
  rw [show (Op.change k change).run.exec w = (res, w') from hexec] at hmoves
  exact hmoves.resolve_left hres

/-- A change does what it makes due, and nothing else outside of its context. -/
theorem Change.advances (hl : w.ledger.Sound) (hc : w.context? k = some c)
    (hc' : w'.context? k = some c') {res : Except Stop Unit}
    (hexec : (change.run k).exec w = (res, w')) (hres : res ≠ .error .abort) :
    w.Advances k w' (change.due c.hold) := by
  have hstep := change.ledger_step hexec hres
  obtain ⟨new, hnew⟩ := change.released hc hexec hres
  have hothers : ∀ j, j ≠ k → ∀ x, w'.ledger.hold j = some x → w.ledger.hold j = some x := by
    intro j hj x hx
    rw [hstep] at hx
    have hx := (Ledger.outlasts_releaseAll Ledger.outlasts_drop _ _).hold j x hx
    rwa [Ledger.hold_onHold, if_neg hj] at hx
  refine ⟨hothers, fun lock s hs => ?_, hnew.opened, fun d hd => ?_, fun lock s s' hs hs' hspares => ?_,
    fun c₁ c₁' hc₁ hc₁' => ?_⟩
  · obtain ⟨s', hs', hfile, -⟩ := hnew.lock lock s hs
    exact ⟨s', hs', fun n hn => hfile.trans hn⟩
  · -- what was due is part of what has run
    obtain ⟨-, new', hn', hturn⟩ := hold_change hc hc' hstep
    have hsame : new' = new :=
      List.reverse_injective (List.append_cancel_right (hn'.symm.trans hnew.ran))
    exact hnew.closed d (hsame ▸ hturn.sublist.subset hd)
  · have hspared : (w.ledger.onHold k change.apply).Spares
        ((Op.change k change).step w.ledger) lock := by
      intro j x i hx hi
      rw [← hstep]
      by_cases hj : j = k
      · rw [hj, World.hold_of_context? hc']
        rfl
      · rw [Ledger.hold_onHold, if_neg hj] at hx
        exact hspares j hj x i hx hi
    have hleaves := Ledger.leaves_step hl (World.hold_of_context? hc) hspared
    have hran : w'.ledger.ran = new.reverse ++ w.ledger.ran := hnew.ran
    rw [← hstep, hran, leaves_append] at hleaves
    obtain ⟨s'', hs'', -, hlevel⟩ := hnew.lock lock s hs
    rw [hs'] at hs''
    cases hs''
    rwa [← Nat.add_right_cancel hleaves, leaves, List.countP_reverse]
  · rw [hc] at hc₁
    cases hc₁
    obtain ⟨c₂, hc₂, hp⟩ := hnew.program k c₁' hc₁'
    rw [hc] at hc₂
    cases hc₂
    rwa [if_pos rfl] at hp

/-- A descriptor that was to be closed and is still open is to be closed still. -/
theorem World.Advances.mem_due (hw : w.Advances k w' out) (hcount : Counts due due' into out) {fd : Int}
    (hfd : w'.host.isOpen fd = true)
    (hd : (∃ d ∈ due, d.release = .close fd) ∨ ∃ d ∈ into, d.release = .close fd) :
    ∃ d ∈ due', d.release = .close fd := by
  have hnone : out.countP (·.release = .close fd) = 0 := by
    rw [List.countP_eq_zero]
    intro d hd hr
    exact hw.closed d hd fd (by simpa using hr) hfd
  have hpos : 0 < due.countP (·.release = .close fd) + into.countP (·.release = .close fd) := by
    rcases hd with ⟨d, hd, hr⟩ | ⟨d, hd, hr⟩
    · exact Nat.add_pos_left (List.countP_pos_iff.2 ⟨d, hd, by simpa using hr⟩) _
    · exact Nat.add_pos_right _ (List.countP_pos_iff.2 ⟨d, hd, by simpa using hr⟩)
  rw [← hcount _ (by simp), hnone, Nat.zero_add] at hpos
  obtain ⟨d, hd, hr⟩ := List.countP_pos_iff.1 hpos
  exact ⟨d, hd, by simpa using hr⟩

/-! ## What is pending -/

/-- What is left to be undone of what was done in a context since the world `w₀`, by the
    steps `pre`: for each descriptor that was opened, and for each acquisition of a debug
    lock, there is a release that is due in the end, or is held by the run. -/
structure Pending (k : ContextId) (w₀ : World) (pre : List Step) (held : List Release) (w : World)
    (due : List (Due Release)) : Prop where
  others : ∀ j, j ≠ k → ∀ h, w.ledger.hold j = some h → w₀.ledger.hold j = some h
  files : w₀.KeepsFiles w
  opened : ∀ fd, w.host.isOpen fd = true →
    (w₀.host.isOpen fd = true ∧ ∀ d ∈ given pre, d.release ≠ .close fd) ∨
      (∃ d ∈ due, d.release = .close fd) ∨ .close fd ∈ held ∨ w₀.NewFile w fd
  level : ∀ (lock : LockId) (s₀ s : DebugLock), w₀.locks[lock]? = some s₀ → w.locks[lock]? = some s →
    w₀.Spares k w lock →
      s.level = s₀.level + UInt32.ofNat (leaves lock due + held.count (.leaveLock lock))

/-- What a run gives to records: what it was given by a body, or what it has held. -/
def Change.Settles (c : Change) (held held' : List Release) : Prop :=
  held = held' ∧ (∀ d ∈ c.given, ∀ lock, d.release ≠ .leaveLock lock) ∨
    ∃ i r, c.given = [⟨i, r⟩] ∧ held = r :: held'

theorem pending_refl (k : ContextId) (w : World) : Pending k w [] [] w [] where
  others _ _ _ h := h
  files := .refl w
  opened fd hfd := .inl ⟨hfd, fun d hd => by cases hd⟩
  level lock s₀ s hs₀ hs _ := by
    rw [hs] at hs₀
    cases hs₀
    exact (UInt32.add_zero _).symm

theorem Change.Settles.count (h : change.Settles held held') (lock : LockId) :
    held.count (.leaveLock lock) = held'.count (.leaveLock lock) + leaves lock change.given := by
  rcases h with ⟨rfl, hnone⟩ | ⟨i, r, hg, rfl⟩
  · have hzero : leaves lock change.given = 0 := by
      rw [leaves, List.countP_eq_zero]
      intro d hd hlock
      exact hnone d hd lock (by simpa using hlock)
    rw [hzero, Nat.add_zero]
  · rw [hg, List.count_cons, leaves, List.countP_singleton]
    by_cases hr : r = .leaveLock lock <;> simp [hr]

theorem Change.Settles.mem (h : change.Settles held held') {r : Release} (hr : r ∈ held) :
    r ∈ held' ∨ ∃ d ∈ change.given, d.release = r := by
  rcases h with ⟨rfl, -⟩ | ⟨i, r', hg, rfl⟩
  · exact .inl hr
  · rcases List.mem_cons.1 hr with rfl | hr
    · exact .inr ⟨_, by rw [hg]; exact List.mem_singleton_self _, rfl⟩
    · exact .inl hr

theorem Change.Settles.subset (h : change.Settles held held') : held' ⊆ held := by
  rcases h with ⟨rfl, -⟩ | ⟨i, r', -, rfl⟩
  · exact fun _ hr => hr
  · exact List.subset_cons_self _ _

namespace Pending

/-- What a run acquires is held by it. -/
theorem gain (h : Pending k w₀ pre held w due) (hg : w.Gains w' gained) :
    Pending k w₀ pre (gained ++ held) w' due where
  others j hj x hx := h.others j hj x (by rw [← hg.ledger]; exact hx)
  files := h.files.trans hg.files
  opened fd hfd := by
    rcases hg.opened fd hfd with hfd | hfd | hfd
    · rcases h.opened fd hfd with hfd | hfd | hfd | hfd
      · exact .inl hfd
      · exact .inr (.inl hfd)
      · exact .inr (.inr (.inl (List.mem_append_right _ hfd)))
      · exact .inr (.inr (.inr (hfd.keeps hg.files)))
    · exact .inr (.inr (.inl (List.mem_append_left _ hfd)))
    · exact .inr (.inr (.inr (hfd.since h.files)))
  level lock s₀ s hs₀ hs hspares := by
    obtain ⟨s₁, hs₁, -⟩ := h.files lock s₀ hs₀
    have hlevel := h.level lock s₀ s₁ hs₀ hs₁ fun j hj x i hx hi => by
      rw [← hg.ledger]
      exact hspares j hj x i hx hi
    rw [hg.level lock s₁ s hs₁ hs, hlevel, List.count_append, UInt32.add_assoc, ← UInt32.ofNat_add,
      Nat.add_assoc, Nat.add_comm (gained.count _)]

/-- The names of the programs have no part in it. -/
theorem congr (h : Pending k w₀ pre held w due) (hl : w'.ledger = w.ledger) (hh : w'.host = w.host)
    (hlocks : w'.locks = w.locks) : Pending k w₀ pre held w' due where
  others := by rw [hl]; exact h.others
  files := by
    unfold World.KeepsFiles
    rw [hlocks]
    exact h.files
  opened := by
    unfold World.NewFile
    rw [hh, hlocks]
    exact h.opened
  level := by
    unfold World.Spares
    rw [hl, hlocks]
    exact h.level

/-- A change in the context: what it makes due has run, and all else is due still. -/
theorem step (h : Pending k w₀ pre held w due) (hw : w.Advances k w' out)
    (hcount : Counts due due' change.given out) (hheld : change.Settles held held') :
    Pending k w₀ (pre ++ [⟨w, .change k change, w'⟩]) held' w' due' where
  others j hj x hx := h.others j hj x (hw.others j hj x hx)
  files := h.files.trans hw.files
  opened fd hfd := by
    by_cases hg : ∃ d ∈ change.given, d.release = .close fd
    · exact .inr (.inl (hw.mem_due hcount hfd (.inr hg)))
    rcases h.opened fd (hw.opened fd hfd) with ⟨hopen, hpre⟩ | hdue | hhold | hfile
    · refine .inl ⟨hopen, fun d hd hr => ?_⟩
      rw [given_append, List.mem_append] at hd
      rcases hd with hd | hd
      · exact hpre d hd hr
      · rw [given, List.flatMap_singleton] at hd
        exact hg ⟨d, hd, hr⟩
    · exact .inr (.inl (hw.mem_due hcount hfd (.inl hdue)))
    · exact (hheld.mem hhold).elim (fun hm => .inr (.inr (.inl hm))) fun hd => absurd hd hg
    · exact .inr (.inr (.inr (hfile.keeps hw.files)))
  level lock s₀ s' hs₀ hs' hspares := by
    obtain ⟨s, hs, -⟩ := h.files lock s₀ hs₀
    have hbefore := h.level lock s₀ s hs₀ hs fun j hj x i hx hi => by
      obtain ⟨y, hy⟩ := Option.isSome_iff_exists.1 (hspares j hj x i hx hi)
      rw [hw.others j hj y hy]
      rfl
    have hlevel := hw.level lock s s' hs hs' fun j hj x i hx hi =>
      hspares j hj x i (h.others j hj x hx) hi
    have hsum : leaves lock due + held.count (.leaveLock lock) =
        leaves lock due' + held'.count (.leaveLock lock) + leaves lock out := by
      have hcount : leaves lock out + leaves lock due' = leaves lock due + leaves lock change.given :=
        hcount (.leaveLock lock) (by simp)
      rw [hheld.count lock]
      omega
    rw [hbefore, hsum, UInt32.ofNat_add, ← UInt32.add_assoc] at hlevel
    exact (UInt32.add_left_inj _).1 hlevel

end Pending

end ScopedResources
