/-
  Who is responsible for a descriptor.

  The host gives out descriptors that were free.  From then on one is in the hand of the
  operation that has asked for it, until the operation makes a record responsible, and
  from then on it is the descriptor of a release that has not run.

  * `Host.Opened`, `Host.Call.Hands`: what a call to the host gives out.
  * `Custody`: a world, with the descriptors that are in the hand.
  * `Handling` are the pieces of an operation that asks for descriptors.
  * `unclosed`: the descriptors of the releases that have not run.
  * `Fits`: what is open is what was open before all, what is in the hand, and what is
    unclosed, and nothing is twice among them.  `sustains_fits` keeps it while releases
    run, `Handling.kept` from piece to piece.
-/
import ScopedResources.Proofs.Acquiring
import ScopedResources.Proofs.Conservation
import ScopedResources.Proofs.Contexts
import ScopedResources.Proofs.Made
import ScopedResources.Proofs.Releasing

namespace ScopedResources

/-- The descriptor that a release closes. -/
def Release.descriptor? : Release → Option Int
  | close fd => some fd
  | note _ _ | dropContext _ _ | forget _ | restoreName _ | leaveLock _ => none

theorem Release.descriptor?_of_detached {r : Release} (h : r.Detached) : r.descriptor? = none := by
  cases r with
  | close fd => cases h
  | _ => rfl

/-! ## What the host gives out -/

namespace Host

variable {α β : Type} {h h' h'' : Host} {fds more : List Int}

/-- The descriptors `fds` were free, and are open now beside all that were. -/
structure Opened (h h' : Host) (fds : List Int) : Prop where
  nodup : fds.Nodup
  free : ∀ fd ∈ fds, ¬ h.isOpen fd = true
  isOpen : ∀ n, h'.isOpen n = true ↔ h.isOpen n = true ∨ n ∈ fds

theorem opened_nil (hd : h'.descriptors = h.descriptors) : h.Opened h' [] where
  nodup := .nil
  free := by simp
  isOpen n := by rw [World.isOpen_congr hd]; simp

theorem Opened.trans (hh : h.Opened h' fds) (hh' : h'.Opened h'' more) :
    h.Opened h'' (fds ++ more) where
  nodup := by
    refine hh.nodup.append hh'.nodup fun fd hfd hmore => ?_
    exact hh'.free fd hmore ((hh.isOpen fd).2 (.inr hfd))
  free fd hfd hopen := by
    rcases List.mem_append.1 hfd with hfd | hfd
    · exact hh.free fd hfd hopen
    · exact hh'.free fd hfd ((hh.isOpen fd).2 (.inl hopen))
  isOpen n := by rw [hh'.isOpen, hh.isOpen, List.mem_append, or_assoc]

/-- A call that gives out the descriptors `fds`, or is refused and gives out none. -/
def Call.Hands (call : Call α) (fds : α → List Int) : Prop :=
  ∀ h, match (call.exec h).1 with
    | .ok a => h.Opened (call.exec h).2 (fds a)
    | .error _ => h.Opened (call.exec h).2 []

theorem Call.Keeps.hands {call : Call α} (hk : call.Keeps) : call.Hands fun _ => [] := by
  intro h
  split <;> exact opened_nil (hk h)

theorem Call.Hands.after {x : Call α} {f : α → Call β} {fds : β → List Int} (hx : x.Keeps)
    (hf : ∀ a, (f a).Hands fds) : (x >>= f).Hands fds := by
  intro h
  have hk := opened_nil (hx h)
  rw [exec_bind]
  rcases hr : x.exec h with ⟨e | a, h₁⟩ <;> rw [hr] at hk
  · exact hk
  · have hfa := hf a h₁
    dsimp only
    rcases hr' : (f a).exec h₁ with ⟨e | b, h₂⟩ <;> rw [hr'] at hfa
    · exact hk.trans hfa
    · exact hk.trans hfa

theorem hands_refused (e : Errno) (f : α → Call β) (fds : β → List Int) :
    ((throw e : Call α) >>= f).Hands fds :=
  fun _ => opened_nil rfl

/-- The lowest free number is free. -/
theorem not_isOpen_freeNumber (h : Host) : ¬ h.isOpen h.freeNumber = true := by
  have hnone : (h.descriptors[h.freeNumber]?).join = none := by
    rw [freeNumber]
    rcases hi : h.descriptors.findIdx? (·.isNone) with _ | i
    · rw [hi, Option.getD_none, Array.getElem?_eq_none (Nat.le_refl _)]
      rfl
    · rw [hi, Option.getD_some]
      obtain ⟨hlt, hnone⟩ := Array.findIdx?_eq_some_iff_getElem.1 hi
      rw [Array.getElem?_eq_getElem hlt, Option.isNone_iff_eq_none.1 hnone.1]
      rfl
  rw [isOpen, descriptor?, if_pos (by omega), Int.toNat_natCast, hnone]
  simp

theorem isOpen_place_iff (h : Host) {number : Nat} (d : Descriptor)
    (hle : number ≤ h.descriptors.size) (n : Int) :
    (h.place number d).isOpen n = true ↔ h.isOpen n = true ∨ n = number := by
  refine ⟨isOpen_place h d hle, fun hn => ?_⟩
  by_cases hnumber : n = number
  · subst hnumber
    rw [isOpen, descriptor?, if_pos (by omega), Int.toNat_natCast, place]
    split
    · rename_i hlt
      rw [Array.getElem?_setIfInBounds_self_of_lt hlt]
      rfl
    · rw [Array.getElem?_push, if_pos (by omega)]
      rfl
  · have ho := hn.resolve_right hnumber
    unfold isOpen descriptor? place at *
    by_cases h0 : 0 ≤ n
    · rw [if_pos h0] at ho ⊢
      split
      · rwa [Array.getElem?_setIfInBounds_ne (by omega)]
      · rw [Array.getElem?_push]
        split
        · rfl
        · exact ho
    · rw [if_neg h0] at ho
      cases ho

theorem lt_size_of_isOpen {fd : Int} (ho : h.isOpen fd = true) : fd.toNat < h.descriptors.size := by
  unfold isOpen descriptor? at ho
  by_cases h0 : 0 ≤ fd
  · rw [if_pos h0] at ho
    by_contra hlt
    rw [Array.getElem?_eq_none (by omega)] at ho
    cases ho
  · rw [if_neg h0] at ho
    cases ho

theorem nonneg_of_isOpen {fd : Int} (ho : h.isOpen fd = true) : 0 ≤ fd := by
  by_contra h0
  unfold isOpen descriptor? at ho
  rw [if_neg h0] at ho
  cases ho

theorem opened_place (h : Host) (d : Descriptor) :
    h.Opened (h.place h.freeNumber d) [h.freeNumber] where
  nodup := by simp
  free fd hfd := by
    rw [List.mem_singleton.1 hfd]
    exact h.not_isOpen_freeNumber
  isOpen n := by rw [isOpen_place_iff h d h.freeNumber_le, List.mem_singleton]

theorem hands_giveOut (d : Descriptor) : (giveOut d).Hands fun number => [number] := by
  intro h
  rw [exec_giveOut]
  by_cases hx : h.exhausted = true
  · rw [if_pos hx]
    exact opened_nil rfl
  · rw [if_neg hx]
    exact opened_place h d

theorem hands_install (file : OpenFile) (closeOnExec : Bool) :
    (install file closeOnExec).Hands fun number => [number] := by
  intro h
  rw [exec_install]
  by_cases hx : h.exhausted = true
  · rw [if_pos hx]
    exact opened_nil rfl
  · rw [if_neg hx]
    have hfile : h.Opened { h with openFiles := h.openFiles.push file } [] := opened_nil rfl
    exact hfile.trans (opened_place _ _)

theorem hands_openFile (path : Bytes) (flags : OpenFlags) (mode : Nat) :
    (openFile path flags mode).Hands fun number => [number] := by
  unfold openFile
  dsimp only
  split
  · exact hands_refused _ _ _
  · refine .after (keeps_of_keepsAt fun ds => keepsAt_lift _) fun _ => .after keeps_get fun h => ?_
    split
    · exact hands_refused _ _ _
    · exact .after (keeps_locate path flags mode) fun _ => hands_install _ _

theorem opened_installed (h : Host) (file : OpenFile) :
    h.Opened (h.installed file) [h.freeNumber] := by
  have hfile : h.Opened { h with openFiles := h.openFiles.push file } [] := opened_nil rfl
  exact hfile.trans (opened_place _ _)

/-- Either both ends of a pipe are given out, or none is. -/
theorem hands_openPipe : openPipe.Hands fun ends => [ends.1, ends.2] := by
  intro h
  rw [exec_openPipe]
  by_cases hx : h.exhausted = true ∨ h.halfPiping.exhausted = true
  · rw [if_pos hx]
    exact opened_nil rfl
  · rw [if_neg hx]
    have hpipe : h.Opened { h with pipes := h.pipes.push .empty } [] := opened_nil rfl
    exact (hpipe.trans (opened_installed _ _)).trans (opened_installed h.halfPiping _)

theorem hands_duplicate (fd : Int) : (duplicate fd).Hands fun number => [number] := by
  refine .after keeps_get fun h => ?_
  split
  · dsimp only
    split
    · exact hands_refused _ _ _
    · exact hands_giveOut _
  · intro h
    exact opened_nil rfl

/-- Replacing a descriptor that is open opens none. -/
theorem opened_replace (source : Int) {target : Int} (ho : h.isOpen target = true) :
    h.Opened ((replace source target).exec h).2 [] := by
  rw [replace, exec_get_bind]
  split
  · split
    · show h.Opened (h.place target.toNat _) []
      refine ⟨.nil, by simp, fun n => ?_⟩
      rw [isOpen_place_iff h _ (Nat.le_of_lt (lt_size_of_isOpen ho)),
        Int.toNat_of_nonneg (nonneg_of_isOpen ho)]
      simp only [List.not_mem_nil, or_false, or_iff_left_iff_imp]
      rintro rfl
      exact ho
    · exact opened_nil rfl
  · exact opened_nil rfl

theorem keeps_terminalName (fd : Int) : (terminalName fd).Keeps := by
  refine (keeps_opened fd).bind fun opened => ?_
  obtain ⟨id, file⟩ := opened
  dsimp only
  split
  · refine keeps_get.bind fun h => ?_
    split
    · exact keeps_pure _
    · exact keeps_throw _
  · exact keeps_throw _

theorem isOpen_of_terminalName {fd : Int} {name : Bytes}
    (hn : ((terminalName fd).exec h).1 = .ok name) : h.isOpen fd = true := by
  by_contra ho
  have hnone : h.descriptor? fd = none := by
    rw [isOpen, Option.isSome_iff_ne_none, not_not] at ho
    exact ho
  have hopened : (opened fd).exec h = (.error Errno.badDescriptor, h) := by
    rw [opened, exec_get_bind, hnone]
    rfl
  rw [terminalName, exec_bind, hopened] at hn
  cases hn

/-- What is open after one descriptor was closed. -/
theorem isOpen_closed_iff (h : Host) {fd : Int} (ho : h.isOpen fd = true) (n : Int) :
    { h with descriptors := h.descriptors.setIfInBounds fd.toNat none }.isOpen n = true ↔
      h.isOpen n = true ∧ n ≠ fd := by
  refine ⟨fun hn => (isOpen_closed h fd n hn).imp id fun hne => hne ho, fun ⟨hn, hne⟩ => ?_⟩
  have h0 := nonneg_of_isOpen hn
  have hfd := nonneg_of_isOpen ho
  unfold isOpen descriptor? at hn ⊢
  rw [if_pos h0] at hn ⊢
  rwa [Array.getElem?_setIfInBounds_ne (by omega)]

end Host

/-! ## In the hand -/

/-- No release has run, and no context has changed; the descriptors `fds` were given out,
    and no debug lock has a file that had none. -/
structure World.Opens (w w' : World) (fds : List Int) : Prop where
  ledger : w'.ledger = w.ledger
  opened : w.host.Opened w'.host fds
  files : (∀ s ∈ w.locks, s.file = none) → ∀ s ∈ w'.locks, s.file = none
  once : ∀ name, .closedTwice name ∈ w'.journal.events → .closedTwice name ∈ w.journal.events

/-- A world, while an operation may be under way. -/
structure Custody where
  world : World
  /-- The descriptors that were given out and that no record is responsible for yet. -/
  hand : List Int

/-- The pieces of operations that ask for descriptors. -/
inductive Handling :
    {α : Type} → Run α → Custody → List Step → Except Stop α → Custody → Prop
  /-- A run to which the host gives out some descriptors, or none. -/
  | aside {α : Type} {run : Run α} {s : Custody} {w' : World} {r : Except Stop α} {fds : List Int} :
    run.exec s.world = (r, w') → s.world.Opens w' fds → Handling run s [] r ⟨w', fds ++ s.hand⟩
  /-- An operation on a context that makes no record responsible for a descriptor. -/
  | op {α : Type} {run : Run α} {s : Custody} {w' : World} {r : Except Stop α} (o : Op) :
    (∀ d ∈ o.given, d.release.descriptor? = none) → discard run = o.run →
    run.exec s.world = (r, w') → Handling run s [⟨s.world, o, w'⟩] r ⟨w', s.hand⟩
  /-- A commit that makes a record responsible for a descriptor in the hand. -/
  | close {s : Custody} {w' : World} {k : ContextId} {i : Index} {fd : Int} {r : Except Stop Unit} :
    fd ∈ s.hand → (Run.commitClose k i fd).exec s.world = (r, w') →
    Handling (Run.commitClose k i fd) s [⟨s.world, .change k (.commit i (.close fd)), w'⟩] r
      ⟨w', s.hand.erase fd⟩

/-! ## What is unclosed -/

/-- The descriptors of the releases that have not run. -/
def unclosed (gs ran : List (Due Release)) : List Int :=
  (gs.filter (· ∉ ran)).filterMap (·.release.descriptor?)

section

variable {gs ran new : List (Due Release)} {d : Due Release} {fd : Int}

theorem mem_unclosed : fd ∈ unclosed gs ran ↔ ∃ i, ⟨i, .close fd⟩ ∈ gs ∧ ⟨i, .close fd⟩ ∉ ran := by
  simp only [unclosed, List.mem_filterMap, List.mem_filter, decide_eq_true_eq]
  constructor
  · rintro ⟨⟨i, r⟩, hd, hr⟩
    cases r <;> cases hr
    exact ⟨i, hd⟩
  · rintro ⟨i, hd⟩
    exact ⟨_, hd, rfl⟩

theorem unclosed_append (hnew : ∀ d ∈ new, d.release.descriptor? = none) :
    unclosed (gs ++ new) ran = unclosed gs ran := by
  have hnone : unclosed new ran = [] := List.filterMap_eq_nil_iff.2 fun d hd =>
    hnew d (List.mem_filter.1 hd).1
  unfold unclosed at *
  rw [List.filter_append, List.filterMap_append, hnone, List.append_nil]

theorem unclosed_snoc {i : Index} (hran : ⟨i, .close fd⟩ ∉ ran) :
    unclosed (gs ++ [⟨i, .close fd⟩]) ran = unclosed gs ran ++ [fd] := by
  unfold unclosed
  rw [List.filter_append, List.filterMap_append, List.filter_cons_of_pos (by simpa using hran)]
  rfl

/-- A release that closes no descriptor runs. -/
theorem unclosed_other (hd : d.release.descriptor? = none) :
    unclosed gs (d :: ran) = unclosed gs ran := by
  unfold unclosed
  induction gs with
  | nil => rfl
  | cons e gs ih =>
    by_cases he : e ∈ ran
    · rw [List.filter_cons_of_neg (by simp [he]), List.filter_cons_of_neg (by simp [he]), ih]
    · by_cases hde : e = d
      · subst hde
        rw [List.filter_cons_of_neg (by simp), List.filter_cons_of_pos (by simp [he]),
          List.filterMap_cons_none (f := fun d : Due Release => d.release.descriptor?) hd, ih]
      · rw [List.filter_cons_of_pos (by simp [he, hde]), List.filter_cons_of_pos (by simp [he]),
          List.filterMap_cons, List.filterMap_cons, ih]

/-- A release that closes a descriptor runs. -/
theorem unclosed_closed {i : Index} (hn : gs.Nodup) (hd : ⟨i, .close fd⟩ ∈ gs)
    (hran : ⟨i, .close fd⟩ ∉ ran) :
    (unclosed gs ran).Perm (fd :: unclosed gs (⟨i, .close fd⟩ :: ran)) := by
  have hmem : (⟨i, .close fd⟩ : Due Release) ∈ gs.filter (· ∉ ran) :=
    List.mem_filter.2 ⟨hd, by simpa using hran⟩
  have herase : (gs.filter (· ∉ ran)).erase ⟨i, .close fd⟩ =
      gs.filter (· ∉ (⟨i, .close fd⟩ :: ran : List (Due Release))) := by
    rw [(hn.filter _).erase_eq_filter, List.filter_filter]
    refine List.filter_congr fun e _ => ?_
    by_cases he : e = ⟨i, .close fd⟩ <;> by_cases hr : e ∈ ran <;> simp [he, hr]
  have hperm := (List.perm_cons_erase hmem).filterMap (·.release.descriptor?)
  rw [herase] at hperm
  exact hperm

end

/-! ## What is open -/

/-- Besides what was open on the host `base`, the descriptors `held` are open, each of
    them once, and no debug lock has a file. -/
structure Fits (base : Host) (held : List Int) (w : World) : Prop where
  nodup : held.Nodup
  fresh : ∀ fd ∈ held, ¬ base.isOpen fd = true
  isOpen : ∀ n, w.host.isOpen n = true ↔ base.isOpen n = true ∨ n ∈ held
  files : ∀ s ∈ w.locks, s.file = none
  once : ∀ name, .closedTwice name ∉ w.journal.events

namespace Fits

variable {base : Host} {held other fds : List Int} {w w' : World}

theorem perm (h : Fits base held w) (hp : held.Perm other) : Fits base other w where
  nodup := hp.nodup_iff.1 h.nodup
  fresh fd hfd := h.fresh fd (hp.mem_iff.2 hfd)
  isOpen n := by rw [h.isOpen, hp.mem_iff]
  files := h.files
  once := h.once

theorem quiet (h : Fits base held w) (hq : w.Quiet w') : Fits base held w' where
  nodup := h.nodup
  fresh := h.fresh
  isOpen n := by
    rw [World.isOpen_congr (h := w.host) (by rw [hq.host])]
    exact h.isOpen n
  files := by rw [hq.locks]; exact h.files
  once name hn := h.once name (hq.once name hn)

theorem opens (h : Fits base held w) (ho : w.Opens w' fds) : Fits base (fds ++ held) w' where
  nodup := ho.opened.nodup.append h.nodup fun fd hfd hheld =>
    ho.opened.free fd hfd ((h.isOpen fd).2 (.inr hheld))
  fresh fd hfd hbase := by
    rcases List.mem_append.1 hfd with hfd | hfd
    · exact ho.opened.free fd hfd ((h.isOpen fd).2 (.inl hbase))
    · exact h.fresh fd hfd hbase
  isOpen n := by
    rw [ho.opened.isOpen, h.isOpen, List.mem_append, or_assoc, or_comm (a := n ∈ held)]
  files := ho.files h.files
  once name hn := h.once name (ho.once name hn)

theorem note (h : Fits base held w) (d : Due Release) : Fits base held (w.note d) :=
  ⟨h.nodup, h.fresh, h.isOpen, h.files, h.once⟩

/-- A descriptor that is held can be closed, and is held no more. -/
theorem closed {fd : Int} (h : Fits base (fd :: held) w) :
    ∃ w', (Run.closeOwned fd).exec w = (.ok (), w') ∧ w'.journal = w.journal ∧ Fits base held w' := by
  have ho : w.host.isOpen fd = true := (h.isOpen fd).2 (.inr (List.mem_cons_self ..))
  obtain ⟨hfd, hn⟩ := List.nodup_cons.1 h.nodup
  refine ⟨{ w with host := { w.host with
    descriptors := w.host.descriptors.setIfInBounds fd.toNat none } }, ?_, rfl, hn,
      fun n hn => h.fresh n (List.mem_cons_of_mem _ hn), fun n => ?_, h.files, h.once⟩
  · rw [Run.closeOwned, Run.exec_bind_ok (Run.exec_host _ w), Host.exec_close, if_pos ho]
    rfl
  · rw [Host.isOpen_closed_iff w.host ho, h.isOpen, List.mem_cons]
    constructor
    · rintro ⟨hbase | rfl | hheld, hne⟩
      · exact .inl hbase
      · exact absurd rfl hne
      · exact .inr hheld
    · rintro (hbase | hheld)
      · refine ⟨.inl hbase, ?_⟩
        rintro rfl
        exact h.fresh n (List.mem_cons_self ..) hbase
      · refine ⟨.inr (.inr hheld), ?_⟩
        rintro rfl
        exact hfd hheld

theorem setLock (h : Fits base held w) (lock : LockId) {s : DebugLock} (hs : s.file = none) :
    Fits base held { w with locks := w.locks.setIfInBounds lock s } where
  nodup := h.nodup
  fresh := h.fresh
  isOpen := h.isOpen
  files s' hs' := by
    rcases Array.mem_or_eq_of_mem_setIfInBounds hs' with hs' | rfl
    · exact h.files s' hs'
    · exact hs
  once := h.once

/-- Where no debug lock has a file, none is closed with its lock. -/
theorem dropLock (h : Fits base held w) (lock : LockId) :
    Fits base held ((Run.dropLock lock).exec w).2 ∧
      ((Run.dropLock lock).exec w).2.journal = w.journal := by
  rw [Run.dropLock, Run.exec_bind_ok (Run.exec_get w)]
  rcases hlock : w.locks[lock]? with _ | ⟨path, file, level, references⟩
  · exact ⟨h, rfl⟩
  · obtain rfl : file = none := h.files _ (Array.mem_of_getElem? hlock)
    have hset := h.setLock lock (s := ⟨path, none, level, references - 1⟩) rfl
    dsimp only
    split <;> exact ⟨hset, rfl⟩

theorem leaveLock (h : Fits base held w) (lock : LockId) :
    Fits base held ((Run.leaveLock lock).exec w).2 ∧
      ((Run.leaveLock lock).exec w).2.journal = w.journal := by
  rw [Run.leaveLock, Run.exec_bind_ok (Run.exec_get w)]
  rcases hlock : w.locks[lock]? with _ | ⟨path, file, level, references⟩
  · exact ⟨h, rfl⟩
  · obtain rfl : file = none := h.files _ (Array.mem_of_getElem? hlock)
    have hset := (h.setLock lock (s := ⟨path, none, level - 1, references⟩) rfl).dropLock lock
    dsimp only
    split <;> exact hset

end Fits

/-- A release that has its turn has been given, and has not run. -/
theorem unclosed_of_turn {gs R ran : List (Due Release)} {i : Index} {fd : Int}
    (hn : (gs.map (·.record)).Nodup) (hR : ∀ d, tally R d ≤ tally gs d)
    (hturn : ⟨i, .close fd⟩ :: ran <:+ R) :
    (unclosed gs ran).Perm (fd :: unclosed gs (⟨i, .close fd⟩ :: ran)) := by
  have hmem : ∀ {l : List (Due Release)}, 0 < tally l ⟨i, .close fd⟩ ↔ ⟨i, .close fd⟩ ∈ l :=
    tally_pos_iff_mem (by simp)
  obtain ⟨before, rfl⟩ := hturn
  have hle := hR ⟨i, .close fd⟩
  have hone := tally_le_one hn ⟨i, .close fd⟩
  have hself : tally [(⟨i, .close fd⟩ : Due Release)] ⟨i, .close fd⟩ = 1 := by simp [tally]
  rw [tally_append, tally_cons, hself] at hle
  refine unclosed_closed (List.Nodup.of_map _ hn) (hmem.1 (by omega)) fun hran => ?_
  -- it would run twice
  have hpos := hmem.2 hran
  omega

/-- What is held for the releases `gs` that have not run is held until they do. -/
theorem sustains_fits {gs R : List (Due Release)} (base : Host) (hand : List Int)
    (hn : (gs.map (·.record)).Nodup) (hR : ∀ d, tally R d ≤ tally gs d) :
    Sustains (fun w => Fits base (unclosed gs w.journal.ran ++ hand) w) R := by
  have hother : ∀ {w : World} {d : Due Release}, Fits base (unclosed gs w.journal.ran ++ hand) w →
      d.release.descriptor? = none →
        Fits base (unclosed gs (w.note d).journal.ran ++ hand) (w.note d) := by
    intro w d hw hd
    rw [World.ran_note, unclosed_other hd]
    exact hw.note d
  refine .of_noted (fun hw hq => ?_) (fun d hw _ hd => ?_) (fun {w} i fd hw hturn => ?_)
    fun {w} i lock hw _ => ?_
  · rw [hq.ran]
    exact hw.quiet hq
  · exact hother hw (Release.descriptor?_of_detached hd)
  · have hperm := (unclosed_of_turn hn hR hturn).append_right hand
    obtain ⟨w', hexec, hjournal, hfits⟩ := ((hw.note ⟨i, .close fd⟩).perm hperm).closed
    rw [hexec, hjournal]
    exact hfits
  · obtain ⟨hfits, hjournal⟩ := (hother (d := ⟨i, .leaveLock lock⟩) hw rfl).leaveLock lock
    rw [← hjournal] at hfits
    exact hfits

/-! ## One piece after the other -/

/-- The invariant of the operations `pre`, on a host that was `base` before them. -/
structure Kept (base : Host) (pre : List Step) (s : Custody) : Prop where
  balanced : Balanced s.world.ledger (given pre)
  fits : Fits base (unclosed (given pre) s.world.journal.ran ++ s.hand) s.world

theorem World.ran_of_ledger {w w' : World} (h : w'.ledger = w.ledger) :
    w'.journal.ran = w.journal.ran :=
  congrArg Ledger.ran h

/-- An operation keeps what is held for the releases that have been given with it. -/
theorem Kept.op {α : Type} {run : Run α} {w w' : World} {pre : List Step} {r : Except Stop α}
    {base : Host} {hand : List Int} {o : Op} (hb : Balanced w.ledger (given pre))
    (hfits : Fits base (unclosed (given pre ++ o.given) w.journal.ran ++ hand) w)
    (hrun : discard run = o.run) (hexec : run.exec w = (r, w'))
    (hlin : Linear (pre ++ [⟨w, o, w'⟩])) :
    (r ≠ .error .abort → Kept base (pre ++ [⟨w, o, w'⟩]) ⟨w', hand⟩) ∧
      ∀ name, .closedTwice name ∉ w'.journal.events := by
  have hgiven : given (pre ++ [⟨w, o, w'⟩]) = given pre ++ o.given := given_snoc ..
  have hexec' : o.run.exec w = (r.map fun _ => (), w') := Run.exec_of_discard hrun hexec
  rw [Linear, hgiven] at hlin
  have hsustains := sustains_fits base hand hlin (hb.step o hlin).ran_le
  have hfits' := hsustains.op o w hfits (List.suffix_refl _)
  rw [hexec'] at hfits'
  refine ⟨fun hr => ⟨?_, ?_⟩, hfits'.once⟩
  · show Balanced w'.ledger _
    rw [hgiven, o.ledger_of_exec hexec' (Run.map_ne_abort hr)]
    exact hb.step o hlin
  · rw [hgiven]
    exact hfits'

/-- Every piece keeps the invariant; where the process ends, no descriptor was found
    closed. -/
theorem Handling.kept {α : Type} {run : Run α} {s s' : Custody} {pre es : List Step}
    {r : Except Stop α} {base : Host} (h : Handling run s es r s') (hs : Kept base pre s)
    (hlin : Linear (pre ++ es)) :
    (r ≠ .error .abort → Kept base (pre ++ es) s') ∧
      ∀ name, .closedTwice name ∉ s'.world.journal.events := by
  cases h with
  | @aside _ _ _ w' _ fds hexec ho =>
    have hperm : (fds ++ (unclosed (given pre) s.world.journal.ran ++ s.hand)).Perm
        (unclosed (given pre) s.world.journal.ran ++ (fds ++ s.hand)) := by
      rw [← List.append_assoc, ← List.append_assoc]
      exact List.perm_append_comm.append_right s.hand
    have hfits := (hs.fits.opens ho).perm hperm
    rw [List.append_nil]
    refine ⟨fun _ => ⟨?_, ?_⟩, hfits.once⟩
    · rw [ho.ledger]
      exact hs.balanced
    · rw [World.ran_of_ledger ho.ledger]
      exact hfits
  | op o hgiven hrun hexec =>
    exact Kept.op hs.balanced (by rw [unclosed_append hgiven]; exact hs.fits) hrun hexec hlin
  | @close _ w' k i fd _ hfd hexec =>
    have hran : (⟨i, .close fd⟩ : Due Release) ∉ s.world.journal.ran := by
      intro hmem
      -- it has been given before, if it has run
      have hpos := (tally_pos_iff_mem (d := ⟨i, .close fd⟩) (by simp)).2 hmem
      have hgiven := (tally_pos_iff_mem (d := ⟨i, .close fd⟩) (by simp)).1
        (Nat.lt_of_lt_of_le hpos (hs.balanced.ran_le _))
      rw [Linear, given_append, List.map_append, List.nodup_append] at hlin
      exact hlin.2.2 i (List.mem_map_of_mem hgiven) i (by simp [given, Op.given, Change.given]) rfl
    refine Kept.op hs.balanced ?_ rfl hexec hlin
    show Fits base (unclosed (given pre ++ [⟨i, .close fd⟩]) _ ++ _) _
    rw [unclosed_snoc hran, List.append_assoc]
    exact hs.fits.perm ((List.perm_cons_erase hfd).append_left _)

end ScopedResources
