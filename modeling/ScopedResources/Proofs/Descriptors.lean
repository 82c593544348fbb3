/-
  Descriptors belong to records.

  An operation that acquires descriptors reserves its records first, and has nothing in
  its hand when it is done: what it was given belongs to a record then, or was closed at
  once because the record was gone.  So in every run that acquires descriptors in this
  way only, and closes none but by releases, each of them is open as long as its record
  is alive, and no longer.

  * `Leads`: how a run changes what is in the hand.
  * `Acquires` are the operations that acquire descriptors, `Acquires.tidy` says that
    they leave the hand as it was.
  * `Owning` are the pieces of the runs that acquire descriptors by these.
  * `descriptors_owned`: what is open, and to whom it belongs.
-/
import ScopedResources.Proofs.Custody

namespace ScopedResources

variable {α β : Type} {w w' : World} {k : ContextId} {hand hand₁ hand₂ : List Int}

/-! ## Operations that acquire descriptors -/

/-- A run in a world is made of pieces that lead from one hand to another, unless it ends
    the process. -/
def Leads (run : Run α) (w : World) (hand hand' : List Int) : Prop :=
  ∃ steps left, Made Handling run ⟨w, hand⟩ steps (run.exec w).1 ⟨(run.exec w).2, left⟩ ∧
    ((run.exec w).1 ≠ .error .abort → left = hand')

/-- A run that leaves the hand as it was, wherever it starts. -/
def Tidy (run : Run α) : Prop :=
  ∀ w hand, Leads run w hand hand

namespace Leads

theorem of_opens {run : Run α} {fds : List Int} (h : w.Opens (run.exec w).2 fds) :
    Leads run w hand (fds ++ hand) :=
  ⟨_, _, .piece (.aside (s := ⟨w, hand⟩) rfl h), fun _ => rfl⟩

theorem of_aside {run : Run α} (h : w.Opens (run.exec w).2 []) : Leads run w hand hand :=
  of_opens h

/-- A run after one that may have changed the hand, and has not failed. -/
theorem seq {x : Run α} {f : α → Run β} (hx : Leads x w hand hand₁)
    (hok : (x.exec w).1 = .error .abort ∨ ∃ a, (x.exec w).1 = .ok a)
    (hf : ∀ a w₁, x.exec w = (.ok a, w₁) → Leads (f a) w₁ hand₁ hand₂) :
    Leads (x >>= f) w hand hand₂ := by
  obtain ⟨steps, left, hmade, hleft⟩ := hx
  rw [Leads, Run.exec_bind]
  rcases hr : x.exec w with ⟨e | a, w₁⟩ <;> rw [hr] at hmade hleft hok
  · rcases hok with he | ⟨a, ha⟩
    · cases he
      exact ⟨steps, left, .stop hmade, fun h => absurd rfl h⟩
    · cases ha
  · obtain rfl := hleft (by simp)
    obtain ⟨more, left', hmade', hleft'⟩ := hf a w₁ hr
    exact ⟨steps ++ more, left', .bind hmade hmade', hleft'⟩

/-- A run after one that leaves the hand as it was. -/
theorem bind {x : Run α} {f : α → Run β} (hx : Leads x w hand hand)
    (hf : ∀ a w₁, x.exec w = (.ok a, w₁) → Leads (f a) w₁ hand hand) :
    Leads (x >>= f) w hand hand := by
  obtain ⟨steps, left, hmade, hleft⟩ := hx
  rw [Leads, Run.exec_bind]
  rcases hr : x.exec w with ⟨e | a, w₁⟩ <;> rw [hr] at hmade hleft
  · exact ⟨steps, left, .stop hmade, fun h => hleft fun he => h (by cases he; rfl)⟩
  · obtain rfl := hleft (by simp)
    obtain ⟨more, left', hmade', hleft'⟩ := hf a w₁ hr
    exact ⟨steps ++ more, left', .bind hmade hmade', hleft'⟩

end Leads

theorem World.Quiet.opens (h : w.Quiet w') (hl : w'.ledger = w.ledger) : w.Opens w' [] where
  ledger := hl
  opened := Host.opened_nil (by rw [h.host])
  files := by rw [h.locks]; exact id
  once := h.once

namespace Run

theorem tidy_of_quiet {run : Run α} (hq : Quiet run) (ha : Aside run) : Tidy run :=
  fun w _ => .of_aside ((hq w).opens (ha w))

theorem tidy_pure (a : α) : Tidy (pure a : Run α) := tidy_of_quiet (quiet_pure a) (aside_pure a)

theorem tidy_op {run : Run α} (o : Op) (hgiven : ∀ d ∈ o.given, d.release.descriptor? = none)
    (hrun : discard run = o.run) : Tidy run :=
  fun w hand => ⟨_, _, .piece (.op (s := ⟨w, hand⟩) o hgiven hrun rfl), fun _ => rfl⟩

theorem tidy_bind {x : Run α} {f : α → Run β} (hx : Tidy x) (hf : ∀ a, Tidy (f a)) :
    Tidy (x >>= f) :=
  fun w hand => (hx w hand).bind fun a w₁ _ => hf a w₁ hand

theorem tidy_reserve (k : ContextId) : Tidy (reserve k) :=
  tidy_op (.change k .reserve) (by simp [Op.given, Change.given]) rfl

/-- The record that is made responsible takes the descriptor out of the hand. -/
theorem leads_commitClose (k : ContextId) (i : Index) (fd : Int) (w : World) (hand : List Int) :
    Leads (commitClose k i fd) w (fd :: hand) hand := by
  refine ⟨_, _, .piece (.close (s := ⟨w, fd :: hand⟩) (List.mem_cons_self ..) rfl), fun _ => ?_⟩
  exact List.erase_cons_head ..

theorem commitClose_settles (k : ContextId) (i : Index) (fd : Int) (w : World) :
    ((commitClose k i fd).exec w).1 = .error .abort ∨ ∃ a, ((commitClose k i fd).exec w).1 = .ok a :=
  (settles_commit k i (.close fd) w).imp id And.left

theorem opens_host {call : Host.Call α} {fds : α → List Int} (hc : call.Hands fds) {a : α}
    (hr : (call.exec w.host).1 = .ok a) : w.Opens ((host call).exec w).2 (fds a) := by
  have h := hc w.host
  rw [hr] at h
  exact ⟨rfl, h, id, fun _ h => h⟩

theorem opens_host_refused {call : Host.Call α} {fds : α → List Int} (hc : call.Hands fds) {e : Errno}
    (hr : (call.exec w.host).1 = .error e) : w.Opens ((host call).exec w).2 [] := by
  have h := hc w.host
  rw [hr] at h
  exact ⟨rfl, h, id, fun _ h => h⟩

/-- What the host gives out is in the hand when the run goes on. -/
theorem leads_granted {call : Host.Call α} {fds : α → List Int} (hc : call.Hands fds)
    {what : Run String} (hq : Quiet what) (ha : Aside what) {rest : α → Run β}
    (hrest : ∀ a, (call.exec w.host).1 = .ok a →
      Leads (rest a) ((host call).exec w).2 (fds a ++ hand) hand) :
    Leads (host call >>= fun result => granted k what result >>= rest) w hand hand := by
  rcases hr : (call.exec w.host).1 with e | a
  · have hhost : (host call).exec w = (.ok (.error e), ((host call).exec w).2) := by
      rw [← hr]; rfl
    refine (Leads.of_aside (opens_host_refused hc hr)).bind fun result w₁ hexec => ?_
    rw [hhost] at hexec
    cases hexec
    refine (tidy_of_quiet (quiet_granted hq k _) (aside_granted ha k _) _ hand).bind
      fun a w₂ hexec => ?_
    exact absurd hexec (exec_granted_error_ne_ok k what e _ a _)
  · have hhost : (host call).exec w = (.ok (.ok a), ((host call).exec w).2) := by
      rw [← hr]; rfl
    refine (Leads.of_opens (opens_host hc hr)).seq (.inr ⟨_, rfl⟩) fun result w₁ hexec => ?_
    rw [hhost] at hexec
    cases hexec
    refine Leads.seq (tidy_pure a _ _) (.inr ⟨_, rfl⟩) fun a' w₂ hexec => ?_
    cases hexec
    exact hrest a hr

theorem tidy_openFile (k : ContextId) (path : Bytes) (flags : Host.OpenFlags) (mode : Nat) :
    Tidy (openFile k path flags mode) := by
  refine tidy_bind (tidy_reserve k) fun record => ?_
  have hopen : Tidy (do
      let fd ← granted k (return openingText path) (← host (Host.openFile path flags mode))
      commitClose k record fd
      return fd) := fun w hand =>
    leads_granted (Host.hands_openFile path flags mode) (quiet_pure _) (aside_pure _) fun fd _ =>
      (leads_commitClose k record fd _ hand).seq (commitClose_settles k record fd _)
        fun _ w₁ _ => tidy_pure fd w₁ hand
  dsimp only
  split
  · exact tidy_bind (tidy_of_quiet (quiet_throwing (quiet_fail _ _ _))
      (aside_throwing (aside_fail _ _ _))) fun _ => hopen
  · exact hopen

theorem tidy_openPipe (k : ContextId) : Tidy (openPipe k) :=
  tidy_bind (tidy_reserve k) fun readRecord => tidy_bind (tidy_reserve k) fun writeRecord _ hand =>
    leads_granted Host.hands_openPipe (quiet_pure _) (aside_pure _) fun ends _ =>
      (leads_commitClose k readRecord ends.1 _ _).seq (commitClose_settles k readRecord ends.1 _)
        fun _ w₁ _ => (leads_commitClose k writeRecord ends.2 w₁ hand).seq
          (commitClose_settles k writeRecord ends.2 w₁) fun _ w₂ _ => tidy_pure ends w₂ hand

theorem tidy_duplicate (k : ContextId) (fd : Int) : Tidy (duplicate k fd) :=
  tidy_bind (tidy_reserve k) fun record _ hand =>
    leads_granted (Host.hands_duplicate fd) ((quiet_describe fd).bind fun _ => quiet_pure _)
      ((aside_describe fd).bind fun _ => aside_pure _) fun copy _ =>
        (leads_commitClose k record copy _ hand).seq (commitClose_settles k record copy _)
          fun _ w₁ _ => tidy_pure copy w₁ hand

theorem tidy_duplicateHandle (k : ContextId) (fd : Int) : Tidy (duplicateHandle k fd) :=
  tidy_bind (tidy_op (.change k .push) (by simp [Op.given, Change.given]) rfl) fun _ =>
    tidy_bind (tidy_duplicate k fd) fun _ =>
      tidy_bind (tidy_op (.change k .pop) (by simp [Op.given, Change.given]) rfl) fun _ => tidy_pure _

/-! ### A terminal that is opened again -/

theorem isOpen_of_quiet {n : Int} (hq : w.Quiet w') (hn : w.host.isOpen n = true) :
    w'.host.isOpen n = true := by
  rw [World.isOpen_congr (h := w.host) (by rw [hq.host])]
  exact hn

theorem isOpen_closeOwned {fd n : Int} (hne : n ≠ fd) (hn : w.host.isOpen n = true) :
    ((closeOwned fd).exec w).2.host.isOpen n = true := by
  rw [closeOwned, exec_bind_ok (exec_host _ w), Host.exec_close]
  by_cases ho : w.host.isOpen fd = true
  · rw [if_pos ho]
    exact (Host.isOpen_closed_iff w.host ho n).2 ⟨hn, hne⟩
  · rw [if_neg ho]
    have hstill := still_record w (.closedTwice (w.describe fd))
    exact (World.isOpen_congr hstill.descriptors n).trans hn

/-- Making a record responsible for a descriptor closes no other one. -/
theorem isOpen_commitClose (k : ContextId) (i : Index) {fd n : Int} (hne : n ≠ fd)
    (hn : w.host.isOpen n = true) : ((commitClose k i fd).exec w).2.host.isOpen n = true := by
  obtain ⟨hr, -⟩ := exec_onTree k (·.commit i (.close fd)) w
  have hn₁ := isOpen_of_quiet (quiet_onTree k (·.commit i (.close fd)) w) hn
  rw [commitClose, commit, exec_bind_ok (Prod.ext hr rfl)]
  rcases ((w.context k).tree.commit i (.close fd)).1 with _ | _
  · have hn₂ := isOpen_of_quiet (quiet_log (e := .lateCommit i) (by simp) _) hn₁
    exact isOpen_closeOwned hne hn₂
  · exact hn₁

/-- A run that returns has gone on with a result. -/
theorem exec_of_bind_ok {x : Run α} {f : α → Run β} {b : β}
    (h : (x >>= f).exec w = (.ok b, w')) :
    ∃ a w₁, x.exec w = (.ok a, w₁) ∧ (f a).exec w₁ = (.ok b, w') := by
  rw [exec_bind] at h
  rcases hx : x.exec w with ⟨e | a, w₁⟩ <;> rw [hx] at h
  · cases h
  · exact ⟨a, w₁, rfl, h⟩

/-- Opening a file closes no descriptor that was open. -/
theorem isOpen_openFile {path : Bytes} {flags : Host.OpenFlags} {mode fresh : Nat} {n : Int}
    (hn : w.host.isOpen n = true)
    (hexec : (openFile k path flags mode).exec w = (.ok fresh, w')) : w'.host.isOpen n = true := by
  obtain ⟨i, w₁, hreserve, hexec⟩ := exec_of_bind_ok hexec
  have hn₁ := isOpen_of_quiet (quiet_reserve k w) hn
  rw [hreserve] at hn₁
  dsimp only at hexec
  split at hexec
  · obtain ⟨_, _, hthrow, -⟩ := exec_of_bind_ok hexec
    obtain ⟨_, _, -, hthrow⟩ := exec_of_bind_ok hthrow
    cases hthrow
  obtain ⟨result, w₂, hhost, hexec⟩ := exec_of_bind_ok hexec
  obtain ⟨fd, w₃, hgranted, hexec⟩ := exec_of_bind_ok hexec
  obtain ⟨_, w₄, hcommit, hexec⟩ := exec_of_bind_ok hexec
  cases hexec
  have hands := Host.hands_openFile path flags mode w₁.host
  rw [exec_host] at hhost
  obtain ⟨hr, rfl⟩ := Prod.ext_iff.1 hhost
  rcases result with e | a
  · exact absurd hgranted (exec_granted_error_ne_ok k _ e _ fresh _)
  cases hgranted
  rw [Except.ok.inj hr] at hands
  -- the descriptor that was given out was free
  have hne : n ≠ fresh := fun he => hands.free fresh (List.mem_singleton_self _) (he ▸ hn₁)
  have hn₄ := isOpen_commitClose k i hne (w := { w₁ with host := _ }) ((hands.isOpen n).2 (.inl hn₁))
  rw [show (commitClose k i fresh).exec _ = _ from hcommit] at hn₄
  exact hn₄

/-- The descriptor of the terminal is open, so that replacing it opens none; the fresh one
    belongs to a record of the scope around. -/
theorem tidy_reopenTerminal (k : ContextId) (fd : Int) : Tidy (reopenTerminal k fd) := by
  intro w hand
  refine leads_granted (Host.keeps_terminalName fd).hands ((quiet_describe fd).bind fun _ =>
    quiet_pure _) ((aside_describe fd).bind fun _ => aside_pure _) fun path hpath => ?_
  have hfd : ((host (Host.terminalName fd)).exec w).2.host.isOpen fd = true :=
    (World.isOpen_congr (Host.keeps_terminalName fd w.host) fd).trans
      (Host.isOpen_of_terminalName hpath)
  refine Leads.bind (tidy_op (.change k .push) (by simp [Op.given, Change.given]) rfl _ hand)
    fun scope w₁ hpush => ?_
  have hfd₁ := isOpen_of_quiet (quiet_pushScope k _) hfd
  rw [show (pushScope k).exec _ = _ from hpush] at hfd₁
  refine Leads.bind (Leads.bind (tidy_openFile k _ _ _ w₁ hand) fun fresh w₂ hopen => ?_) fun _ w₃ _ =>
    tidy_bind (tidy_op (.change k (.leave scope)) (by simp [Op.given, Change.given]) rfl)
      (fun _ => tidy_pure _) w₃ hand
  have hreplace : w₂.Opens ((host (Host.replace fresh fd)).exec w₂).2 [] :=
    ⟨rfl, Host.opened_replace fresh (isOpen_openFile hfd₁ hopen), id, fun _ h => h⟩
  exact (Leads.of_aside hreplace).bind fun result w₃ _ =>
    tidy_of_quiet (quiet_granted ((quiet_describe _).bind fun _ => (quiet_describe fd).bind fun _ =>
      quiet_pure _) k result) (aside_granted ((aside_describe _).bind fun _ =>
        (aside_describe fd).bind fun _ => aside_pure _) k result) w₃ hand

end Run

/-- The operations that acquire descriptors for the current scope. -/
inductive Acquires : {α : Type} → Run α → Prop
  | openFile (k : ContextId) (path : Bytes) (flags : Host.OpenFlags) (mode : Nat) :
    Acquires (Run.openFile k path flags mode)
  | openPipe (k : ContextId) : Acquires (Run.openPipe k)
  | duplicate (k : ContextId) (fd : Int) : Acquires (Run.duplicate k fd)
  | duplicateHandle (k : ContextId) (fd : Int) : Acquires (Run.duplicateHandle k fd)
  | reopenTerminal (k : ContextId) (fd : Int) : Acquires (Run.reopenTerminal k fd)

theorem Acquires.tidy {run : Run α} (h : Acquires run) : Tidy run := by
  cases h with
  | openFile k path flags mode => exact Run.tidy_openFile k path flags mode
  | openPipe k => exact Run.tidy_openPipe k
  | duplicate k fd => exact Run.tidy_duplicate k fd
  | duplicateHandle k fd => exact Run.tidy_duplicateHandle k fd
  | reopenTerminal k fd => exact Run.tidy_reopenTerminal k fd

/-! ## Runs -/

/-- The pieces of runs that acquire descriptors by these operations only, and close none
    but by releases. -/
inductive Owning : {α : Type} → Run α → World → List Step → Except Stop α → World → Prop
  /-- A run that opens nothing and closes nothing. -/
  | aside {α : Type} {run : Run α} {w w' : World} {r : Except Stop α} :
    run.exec w = (r, w') → w.Opens w' [] → Owning run w [] r w'
  /-- An operation on a context that makes no record responsible for a descriptor. -/
  | op {α : Type} {run : Run α} {w w' : World} {r : Except Stop α} (o : Op) :
    (∀ d ∈ o.given, d.release.descriptor? = none) → discard run = o.run →
    run.exec w = (r, w') → Owning run w [⟨w, o, w'⟩] r w'
  /-- An operation that acquires descriptors. -/
  | acquire {α : Type} {run : Run α} {w w' : World} {r : Except Stop α} {steps : List Step}
    {hand : List Int} :
    Acquires run → Made Handling run ⟨w, []⟩ steps r ⟨w', hand⟩ → (r ≠ .error .abort → hand = []) →
    Owning run w steps r w'

/-- Whatever becomes of it, an operation that acquires descriptors is such a piece. -/
theorem Acquires.owning {run : Run α} {r : Except Stop α} (h : Acquires run)
    (hexec : run.exec w = (r, w')) : ∃ steps, Owning run w steps r w' := by
  obtain ⟨steps, hand, hmade, hhand⟩ := h.tidy w []
  rw [hexec] at hmade hhand
  exact ⟨steps, .acquire h hmade hhand⟩

/-- Each descriptor that was acquired, on a host that was `base` before, belongs to one
    record as long as it is open. -/
structure Owned (base : Host) (w : World) : Prop where
  /-- What a record is responsible for is open, and was acquired. -/
  opened : ∀ k c i fd, w.context? k = some c → c.tree.release? i = some (.close fd) →
    w.host.isOpen fd = true ∧ ¬ base.isOpen fd = true
  /-- No two records are responsible for the same. -/
  distinct : ∀ k j c d i e fd, w.context? k = some c → c.tree.release? i = some (.close fd) →
    w.context? j = some d → d.tree.release? e = some (.close fd) → k = j ∧ i = e
  /-- What was acquired and is open, a record is responsible for. -/
  owned : ∀ fd, w.host.isOpen fd = true → ¬ base.isOpen fd = true →
    ∃ k c i, w.context? k = some c ∧ c.tree.release? i = some (.close fd)
  /-- What was open before is open. -/
  before : ∀ fd, base.isOpen fd = true → w.host.isOpen fd = true

namespace Kept

variable {base : Host} {pre : List Step} {s : Custody} {c : Context} {i : Index} {fd : Int}

/-- What a live record is responsible for is unclosed. -/
theorem waits (h : Kept base pre s) (hc : s.world.context? k = some c)
    (hi : c.tree.release? i = some (.close fd)) :
    s.world.ledger.has ⟨i, .close fd⟩ k = true ∧
      ⟨i, .close fd⟩ ∈ (given pre).filter (· ∉ s.world.journal.ran) := by
  have hhas : s.world.ledger.has ⟨i, .close fd⟩ k = true := by
    rw [Ledger.has_of_hold (World.hold_of_context? hc)]
    exact (Tree.holds_iff_release? (by simp)).2 hi
  have hpos := h.balanced.waiting_pos hhas
  have htotal := h.balanced.total ⟨i, .close fd⟩
  have hone := tally_le_one h.balanced.linear ⟨i, .close fd⟩
  have hgiven := tally_pos_iff_mem (l := given pre) (d := ⟨i, .close fd⟩) (by simp)
  have hran := tally_pos_iff_mem (l := s.world.journal.ran) (d := ⟨i, .close fd⟩) (by simp)
  change tally s.world.journal.ran _ + _ = _ at htotal
  refine ⟨hhas, List.mem_filter.2 ⟨hgiven.1 (by omega), ?_⟩⟩
  rw [decide_eq_true_eq, ← hran]
  omega

theorem owned (h : Kept base pre ⟨w, []⟩) : Owned base w where
  opened k c i fd hc hi := by
    have hfd : fd ∈ unclosed (given pre) w.journal.ran ++ [] := by
      rw [List.append_nil]
      exact List.mem_filterMap.2 ⟨_, (h.waits hc hi).2, rfl⟩
    exact ⟨(h.fits.isOpen fd).2 (.inr hfd), h.fits.fresh fd hfd⟩
  distinct k j c d i e fd hc hi hd he := by
    obtain ⟨hk, hmem⟩ := h.waits hc hi
    obtain ⟨hj, hmem'⟩ := h.waits hd he
    have hnodup := h.fits.nodup
    rw [List.append_nil, unclosed, List.Nodup, List.pairwise_filterMap] at hnodup
    have hie : i = e := by
      by_contra hne
      have hsymm : Std.Symm fun a b : Due Release => ∀ fd, a.release.descriptor? = some fd →
          ∀ fd', b.release.descriptor? = some fd' → fd ≠ fd' :=
        ⟨fun a b hab fd hfd fd' hfd' => (hab fd' hfd' fd hfd).symm⟩
      exact hnodup.forall hmem hmem' (by simpa using hne) fd rfl fd rfl rfl
    subst hie
    exact ⟨h.balanced.alone hj hk, rfl⟩
  owned fd ho hbase := by
    have hfd := ((h.fits.isOpen fd).1 ho).resolve_left hbase
    rw [List.append_nil, mem_unclosed] at hfd
    obtain ⟨i, hgiven, hran⟩ := hfd
    have htotal := h.balanced.total ⟨i, .close fd⟩
    have hpos := (tally_pos_iff_mem (d := ⟨i, .close fd⟩) (by simp)).2 hgiven
    have hzero := mt (tally_pos_iff_mem (l := w.journal.ran) (d := ⟨i, .close fd⟩) (by simp)).1 hran
    change tally w.journal.ran _ + w.ledger.waiting _ = _ at htotal
    have hwaiting : 0 < w.ledger.waiting ⟨i, .close fd⟩ := by omega
    obtain ⟨k, -, hk⟩ := List.countP_pos_iff.1 hwaiting
    obtain ⟨x, hx, hholds⟩ := Option.any_eq_true _ _ |>.1 hk
    obtain ⟨c, hc, rfl⟩ := World.context?_of_hold hx
    exact ⟨k, c, i, hc, (Tree.holds_iff_release? (by simp)).1 hholds⟩
  before fd hfd := (h.fits.isOpen fd).2 (.inl hfd)

end Kept

theorem kept_new (host : Host) (identity : String) (log : Option Log) :
    Kept host [] ⟨World.new host identity log, []⟩ where
  balanced := balanced_new host identity log
  fits := by
    refine ⟨.nil, by simp [unclosed, given], fun n => ?_, by simp [World.new], by
      simp [World.new, Journal.empty]⟩
    simp [unclosed, given, World.new]

/-- Every piece keeps the invariant; where the process ends, no descriptor was found
    closed. -/
theorem Owning.kept {run : Run α} {pre es : List Step} {r : Except Stop α} {base : Host}
    (h : Owning run w es r w') (hs : Kept base pre ⟨w, []⟩) (hlin : Linear (pre ++ es)) :
    (r ≠ .error .abort → Kept base (pre ++ es) ⟨w', []⟩) ∧
      ∀ name, .closedTwice name ∉ w'.journal.events := by
  cases h with
  | aside hexec ho => exact (Handling.aside (s := ⟨w, []⟩) hexec ho).kept hs hlin
  | op o hgiven hrun hexec => exact (Handling.op (s := ⟨w, []⟩) o hgiven hrun hexec).kept hs hlin
  | acquire _ hmade hhand =>
    have hkeeps := hmade.keeps Linear.of_append (Kept base)
      (fun _ s => ∀ name, .closedTwice name ∉ s.world.journal.events)
      (fun hpiece hs hlin => (hpiece.kept hs hlin).imp id fun h _ => h) hs hlin
    by_cases hr : r = .error .abort
    · exact ⟨fun h => absurd hr h, hkeeps.2 hr⟩
    · obtain rfl := hhand hr
      exact ⟨hkeeps.1, (hkeeps.1 hr).fits.once⟩

/-- Whoever acquires descriptors in these ways only neither leaks nor closes one twice: in
    every run of this kind that commits no reservation twice, each descriptor that was
    acquired is open until the record runs that it belongs to, and without contexts none
    is. -/
theorem descriptors_owned {run : Run α} {host : Host} {identity : String} {log : Option Log}
    {r : Except Stop α} {steps : List Step}
    (hrun : Made Owning run (World.new host identity log) steps r w) (hlin : Linear steps) :
    (∀ name, .closedTwice name ∉ w.journal.events) ∧
      (r ≠ .error .abort → Owned host w ∧
        ((∀ k, w.context? k = none) → ∀ fd, w.host.isOpen fd = host.isOpen fd)) := by
  have hkeeps := hrun.keeps Linear.of_append (fun pre w => Kept host pre ⟨w, []⟩)
    (fun _ w => ∀ name, .closedTwice name ∉ w.journal.events)
    (fun hpiece hs hlin => (hpiece.kept hs hlin).imp id fun h _ => h)
    (kept_new host identity log) hlin
  by_cases hr : r = .error .abort
  · exact ⟨hkeeps.2 hr, fun h => absurd hr h⟩
  have howned := (hkeeps.1 hr).owned
  refine ⟨(hkeeps.1 hr).fits.once, fun _ => ⟨howned, fun hnone fd => ?_⟩⟩
  rw [Bool.eq_iff_iff]
  refine ⟨fun ho => ?_, howned.before fd⟩
  by_contra hbase
  obtain ⟨k, c, i, hc, -⟩ := howned.owned fd ho hbase
  rw [hnone k] at hc
  cases hc

/-- A context that has a copy of the standard output. -/
def copiedOutput : Run Nat := do
  let _ ← Run.newContext "example"
  Run.duplicate 0 1

theorem Handling.of_ok {run : Run α} (o : Op)
    (hgiven : ∀ d ∈ o.given, d.release.descriptor? = none) (hrun : discard run = o.run) {a : α}
    (h : (run.exec w).1 = .ok a) :
    Handling run ⟨w, hand⟩ [⟨w, o, (run.exec w).2⟩] (.ok a) ⟨(run.exec w).2, hand⟩ :=
  .op (s := ⟨w, hand⟩) o hgiven hrun (Prod.ext h rfl)

/-- The theorem above where the standard output was copied. -/
theorem descriptors_owned_copiedOutput : ∃ steps w,
    Made Owning copiedOutput .start steps (.ok 3) w ∧ Linear steps ∧
      w.host.isOpen 3 = true ∧ ¬ World.start.host.isOpen 3 = true ∧ Owned World.start.host w := by
  obtain ⟨steps, w, hmade, hlin, hopen⟩ : ∃ steps w,
      Made Owning copiedOutput .start steps (.ok 3) w ∧ Linear steps ∧ w.host.isOpen 3 = true := by
    refine ⟨_, _, .bind (.piece (.op (.newContext "example") nofun rfl rfl))
      (.piece (.acquire (.duplicate 0 1)
        (.bind (.piece (.of_ok (a := ⟨0, 1, 0⟩) (.change 0 .reserve) nofun rfl (by decide +kernel)))
        (.bind (.piece (.aside (r := .ok (.ok 3)) (Prod.ext (by decide +kernel) rfl)
          (Run.opens_host (Host.hands_duplicate 1) (by decide +kernel))))
        (.bind (.piece (.aside rfl ((World.Quiet.refl _).opens rfl)))
        (.bind (.piece (.close (List.mem_singleton_self _) (r := .ok ())
          (Prod.ext (by decide +kernel) rfl)))
        (.piece (.aside rfl ((World.Quiet.refl _).opens rfl)))))))
        fun _ => rfl)), ?_, ?_⟩
    · unfold Linear
      decide +kernel
    · decide +kernel
  have hbase : ¬ World.start.host.isOpen 3 = true := by decide +kernel
  exact ⟨steps, w, hmade, hlin, hopen, hbase, ((descriptors_owned hmade hlin).2 (by simp)).1⟩

end ScopedResources
