/-
  Every release runs exactly once.

  A release is given to a reservation by its commit.  It runs then and there if
  the record is gone or belongs to another context, and otherwise at the first
  teardown of a scope that its owner is within.  Nothing is lost on the way, and
  nothing runs twice, through whatever operations a run goes: protected calls
  that fail or panic, handles, and releases that drop other contexts.

  * `Linear` are the runs that commit no reservation twice; `Trail.linear` says when that
    is so.
  * `Balanced` is the invariant: what has run and what waits is what was given.
    `Balanced.step` keeps it by one operation, `Trail.balanced` by all of a run.
  * `Balanced.commit_step`, `Balanced.waits_step`: what one operation does to a
    release that is given to it, and to one that waits.
  * `releases_once`: what becomes of every release of a run.
-/
import ScopedResources.Proofs.Persistence
import ScopedResources.Proofs.Waiting

namespace ScopedResources

/-- The releases that operations are given, in order. -/
def given (steps : List Step) : List (Due Release) :=
  steps.flatMap (·.op.given)

/-- No reservation is committed twice: its commit uses it up. -/
def Linear (steps : List Step) : Prop :=
  ((given steps).map (·.record)).Nodup

/-- Whether an operation reserves a record in a context, with the scope `o` as its
    owner. -/
def Step.Reserves (s : Step) (k : ContextId) (o i : Index) : Prop :=
  s.reserved? k = some i ∧ ∃ h, s.before.ledger.hold k = some h ∧ h.tree.current = o

/-- Whether an operation tears down a scope of a context, or one of those that
    the scope is within.  With a context all its scopes are torn down. -/
def Op.Tears (op : Op) (l : Ledger) (k : ContextId) (o : Index) : Prop :=
  (op.step l).hold k = none ∨
    ∃ h c s, op = .change k c ∧ l.hold k = some h ∧ c.tears h = some s ∧ h.tree.isWithin s o = true

/-- Whether a release waits in a context, on a record of the scope `o`. -/
def Ledger.Waits (l : Ledger) (k : ContextId) (o : Index) (d : Due Release) : Prop :=
  ∃ h r, l.hold k = some h ∧ h.tree.record? d.record = some (o, some r) ∧
    r.outline = d.release.outline

variable {l l' : Ledger} {k j : ContextId} {h h' : Hold} {i o : Index} {d : Due Release}
  {steps more : List Step} {gs : List (Due Release)}

theorem given_append (steps more : List Step) : given (steps ++ more) = given steps ++ given more :=
  List.flatMap_append

theorem given_cons (s : Step) (steps : List Step) : given (s :: steps) = s.op.given ++ given steps :=
  List.flatMap_cons

theorem given_snoc (pre : List Step) (s : Step) : given (pre ++ [s]) = given pre ++ s.op.given := by
  rw [given_append, given_cons]
  exact congrArg _ (List.append_nil _)

theorem nodup_of_append {new : List (Due Release)} (hn : ((gs ++ new).map (·.record)).Nodup) :
    (gs.map (·.record)).Nodup := by
  rw [List.map_append] at hn
  exact hn.of_append_left

theorem Ledger.Waits.has (hw : l.Waits k o d) : l.has d k = true := by
  obtain ⟨h, r, hk, hi, hr⟩ := hw
  rw [has_of_hold hk]
  exact Tree.holds_iff.2 ⟨o, r, hi, hr⟩

theorem Linear.of_append (h : Linear (steps ++ more)) : Linear steps := by
  rw [Linear, given_append, List.map_append] at h
  exact h.of_append_left

theorem Linear.records {s : Step} (h : Linear (steps ++ [s])) :
    ((given steps ++ s.op.given).map (·.record)).Nodup := by
  rwa [Linear, given_snoc] at h

/-! ## Linear runs -/

/-- The records that operations reserve, with their contexts. -/
def reservations (steps : List Step) : List (ContextId × Index) :=
  steps.filterMap fun s =>
    match s.op with
    | .change k _ => (s.reserved? k).map (k, ·)
    | .newContext _ | .dropContext _ => none

theorem mem_reservations_iff : (k, i) ∈ reservations steps ↔ ∃ s ∈ steps, s.reserved? k = some i := by
  rw [reservations, List.mem_filterMap]
  refine exists_congr fun s => and_congr_right fun _ => ?_
  constructor
  · intro h
    split at h
    · obtain ⟨j, hj, he⟩ := Option.map_eq_some_iff.1 h
      cases he
      exact hj
    · cases h
    · cases h
  · intro h
    rw [(Step.reserved?_eq_some_iff.1 h).1]
    dsimp only
    rw [h]
    rfl

theorem reservations_filter (steps : List Step) (k : ContextId) :
    ((reservations steps).filter fun p => p.1 = k).map Prod.snd = issued steps k := by
  rw [reservations, List.filter_filterMap, List.map_filterMap, issued]
  refine List.filterMap_congr fun s _ => ?_
  rcases hop : s.op with program | j | ⟨j, c⟩
  · exact (Step.reserved?_of_ne (by simp [hop])).symm
  · exact (Step.reserved?_of_ne (by simp [hop])).symm
  · by_cases hj : j = k
    · subst hj
      rcases hr : s.reserved? j with _ | i <;> simp [hr]
    · have hnone : s.reserved? k = none := Step.reserved?_of_ne (by simp [hop, hj])
      rcases s.reserved? j with _ | i <;> simp [hnone, hj]

/-- A run is linear if it commits each of its reservations at most once, vacates no slot 2^32
    times and makes no more contexts than there are identities. -/
theorem Trail.linear (ht : Trail l steps l') (hl : l.Sound) (hcount : l'.count ≤ 2 ^ 32)
    (hv : ∀ k n, vacations steps k n < 2 ^ 32)
    (hspent : ((given steps).map (·.record)).Subperm ((reservations steps).map Prod.snd)) :
    Linear steps := by
  have hpairs : (reservations steps).Nodup := by
    refine List.nodup_iff_count_le_one.2 fun p => ?_
    have hissued := issued_nodup ht hl (hv p.1)
    rw [← reservations_filter] at hissued
    rw [← List.count_filter (p := fun q => q.1 = p.1) (by simp)]
    exact List.nodup_iff_count_le_one.1 (List.Nodup.of_map _ hissued) p
  have harena : ∀ p ∈ reservations steps, p.2.arena = UInt32.ofNat p.1 ∧ p.1 < 2 ^ 32 := by
    rintro ⟨k, i⟩ hp
    obtain ⟨s, hs, hr⟩ := mem_reservations_iff.1 hp
    obtain ⟨pre, post, rfl⟩ := List.append_of_mem hs
    obtain ⟨hpre, hstep, hpost⟩ := ht.split
    have hsound := hpre.sound hl
    obtain ⟨h, h', -, hk', -, hi⟩ := Step.reserved?_spec hr hstep hsound
    have hsound' : s.after.ledger.Sound := by rw [hstep]; exact hsound.step s.op
    refine ⟨(Slots.arena_of_get? hi).trans (hsound'.arena k h' hk'), ?_⟩
    exact Nat.lt_of_lt_of_le (hsound'.lt k h' hk') (hpost.count_le.trans hcount)
  have hnodup : ((reservations steps).map Prod.snd).Nodup := by
    refine List.Nodup.map_on (fun p hp q hq he => ?_) hpairs
    obtain ⟨hpa, hplt⟩ := harena p hp
    obtain ⟨hqa, hqlt⟩ := harena q hq
    refine Prod.ext ?_ he
    rw [he, hqa] at hpa
    have := congrArg UInt32.toNat hpa
    rw [UInt32.toNat_ofNat_of_lt' hqlt, UInt32.toNat_ofNat_of_lt' hplt] at this
    exact this.symm
  obtain ⟨used, hperm, hsub⟩ := hspent
  exact hperm.nodup_iff.1 (hnodup.sublist hsub)

/-! ## The balance -/

/-- The invariant of a run that was given the releases `gs`: each was given to a
    record of its own, and has run or waits. -/
structure Balanced (l : Ledger) (gs : List (Due Release)) : Prop where
  sound : l.Sound
  linear : (gs.map (·.record)).Nodup
  /-- The records that have a release were committed. -/
  committed : ∀ k h i r, l.hold k = some h → h.tree.release? i = some r →
    i ∈ gs.map (·.record)
  total : ∀ d, l.total d = tally gs d

theorem balanced_new (host : Host) (identity : String) (log : Option Log) :
    Balanced (World.new host identity log).ledger [] where
  sound := sound_new host identity log
  linear := List.nodup_nil
  committed k h i r hk := by rw [hold_new] at hk; cases hk
  total _ := rfl

namespace Balanced

/-- A record that is given a release by an operation had none before. -/
theorem fresh (hb : Balanced l gs) {new : List (Due Release)}
    (hn : ((gs ++ new).map (·.record)).Nodup) (k : ContextId) (h : Hold) (hk : l.hold k = some h) :
    ∀ e ∈ new, h.tree.release? e.record = none := by
  intro e he
  rw [Option.eq_none_iff_forall_ne_some]
  intro r hr
  rw [List.map_append, List.nodup_append] at hn
  exact hn.2.2 _ (hb.committed k h _ r hk hr) _ (List.mem_map_of_mem he) rfl

/-- Every operation keeps the invariant, if it is not given a reservation that
    was used up. -/
theorem step (hb : Balanced l gs) (op : Op) (hn : ((gs ++ op.given).map (·.record)).Nodup) :
    Balanced (op.step l) (gs ++ op.given) where
  sound := hb.sound.step op
  linear := hn
  committed k h' i r hk' hr := by
    rw [List.map_append, List.mem_append]
    rcases hold_step op hk' with ⟨-, hk⟩ | ⟨h, c, hk, rfl, rfl⟩ | ⟨program, -, -, rfl⟩
    · exact .inl (hb.committed k h' i r hk hr)
    · obtain ⟨w, hw⟩ := hb.sound.shows k h hk
      rcases (Change.outcome hw c).1.origin hw.isScope_current hr with ⟨-, ⟨r₀, hr₀, -⟩ | he⟩
      · exact .inl (hb.committed k h i r₀ hk hr₀)
      · exact .inr (List.mem_map_of_mem he)
    · cases (Tree.release?_new _ i).symm.trans hr
  total d := by
    rw [Op.total_step hb.sound op (hb.fresh hn), hb.total, tally_append]

theorem ran_le (hb : Balanced l gs) (d : Due Release) : tally l.ran d ≤ tally gs d := by
  rw [← hb.total d, Ledger.total]
  exact Nat.le_add_right _ _

theorem waiting_pos (hb : Balanced l gs) (hh : l.has d k = true) : 0 < l.waiting d := by
  obtain ⟨h, hk, -⟩ := Option.any_eq_true _ _ |>.1 hh
  exact List.countP_pos_iff.2 ⟨k, List.mem_range.2 (hb.sound.lt k h hk), hh⟩

/-- A release that waits has not run, and was given once. -/
theorem of_waits (hb : Balanced l gs) (hw : l.Waits k o d) :
    tally l.ran d = 0 ∧ tally gs d = 1 := by
  have hpos := hb.waiting_pos hw.has
  have htotal := hb.total d
  have hle := tally_le_one hb.linear d
  rw [Ledger.total] at htotal
  omega

/-- A release waits in one context only. -/
theorem alone (hb : Balanced l gs) (hk : l.has d k = true) (hj : l.has d j = true) : j = k := by
  by_contra hne
  obtain ⟨h, hh, hd⟩ := Option.any_eq_true _ _ |>.1 hk
  have htake := Ledger.total_take hb.sound hh d
  have hle := tally_le_one hb.linear d
  rw [hd, Bool.toNat_true, hb.total d, Ledger.total] at htake
  have hj' : (l.take k).has d j = true := by rw [Ledger.has, Ledger.hold_take, if_neg hne]; exact hj
  obtain ⟨x, hx, -⟩ := Option.any_eq_true _ _ |>.1 hj
  have hpos : 0 < (l.take k).waiting d :=
    List.countP_pos_iff.2 ⟨j, List.mem_range.2 (hb.sound.lt j x hx), hj'⟩
  omega

end Balanced

/-- Operations one after the other keep the invariant, if no reservation is used
    twice. -/
theorem Trail.balanced (ht : Trail l steps l') (hb : Balanced l gs)
    (hn : ((gs ++ given steps).map (·.record)).Nodup) : Balanced l' (gs ++ given steps) := by
  induction ht generalizing gs with
  | nil l =>
    rw [given, List.flatMap_nil, List.append_nil]
    exact hb
  | @cons s steps l' hs _ ih =>
    rw [given_cons, ← List.append_assoc] at hn ⊢
    refine ih ?_ hn
    rw [hs]
    exact hb.step s.op (nodup_of_append hn)

/-! ## A release that waits -/

/-- What waits after an operation waited before, or was given now. -/
theorem has_step (hl : l.Sound) (op : Op) (hh : (op.step l).has d k = true) :
    l.has d k = true ∨ ∃ e ∈ op.given, e.record = d.record := by
  obtain ⟨h', hk', hd⟩ := Option.any_eq_true _ _ |>.1 hh
  rcases hold_step op hk' with ⟨-, hk⟩ | ⟨h, c, hk, rfl, rfl⟩ | ⟨program, -, -, rfl⟩
  · exact .inl (by rw [Ledger.has_of_hold hk]; exact hd)
  · obtain ⟨w, hw⟩ := hl.shows k h hk
    obtain ⟨o, r, hi, hr⟩ := Tree.holds_iff.1 hd
    have hrel : (c.apply h).tree.release? d.record = some r := by rw [Tree.release?, hi]; rfl
    rcases (Change.outcome hw c).1.origin hw.isScope_current hrel with ⟨-, ⟨r₀, hr₀, ho⟩ | he⟩
    · left
      rw [Ledger.has_of_hold hk, Tree.holds, hr₀]
      exact decide_eq_true (ho.trans hr)
    · exact .inr ⟨_, he, rfl⟩
  · cases (Tree.holds_eq_false (Tree.release?_new _ d.record)).symm.trans hd

namespace Balanced

/-- A release that waits in no context any more has run. -/
theorem ran_of_gone (hb : Balanced l gs) (hgs : tally gs d = 1) (hgone : ∀ k, l.has d k = false) :
    tally l.ran d = 1 := by
  have hnone : l.waiting d = 0 := List.countP_eq_zero.2 fun k _ => by rw [hgone k]; simp
  have htotal := hb.total d
  rw [Ledger.total] at htotal
  omega

/-- A release that waits runs in an operation that tears its owner down, and in
    no other. -/
theorem waits_step (hb : Balanced l gs) (op : Op) (hn : ((gs ++ op.given).map (·.record)).Nodup)
    (hw : l.Waits k o d) :
    op.Tears l k o ∧ tally (op.step l).ran d = 1 ∨
      ¬ op.Tears l k o ∧ (op.step l).Waits k o d := by
  obtain ⟨hran, hgs⟩ := hb.of_waits hw
  have hhas := hw.has
  obtain ⟨h, r, hk, hi, hr⟩ := hw
  -- the reservation is used up
  have hother : ∀ e ∈ op.given, e.record ≠ d.record := by
    intro e he hrec
    have hrel : h.tree.release? e.record = some r := by rw [hrec, Tree.release?, hi]; rfl
    rw [hb.fresh hn k h hk e he] at hrel; cases hrel
  have hb' := hb.step op hn
  have hgs' : tally (gs ++ op.given) d = 1 := by
    have hzero : tally op.given d = 0 := tally_eq_zero_iff.2 fun e he heq =>
      hother e he (Due.outline_eq_iff.1 heq).1
    rw [tally_append, hgs, hzero]
  have hran' : (op.step l).has d k = false → tally (op.step l).ran d = 1 := by
    intro hgone
    refine hb'.ran_of_gone hgs' fun j => ?_
    rw [← Bool.not_eq_true]
    intro hj
    rcases has_step hb.sound op hj with hj' | ⟨e, he, hrec⟩
    · rw [hb.alone hhas hj', hgone] at hj; cases hj
    · exact hother e he hrec
  rcases hk' : (op.step l).hold k with _ | h'
  · exact .inl ⟨.inl hk', hran' (Ledger.has_of_none hk')⟩
  rcases hold_step op hk' with ⟨hc, hx⟩ | ⟨x, c, hx, rfl, rfl⟩ | ⟨program, -, hlt, -⟩
  · rw [hk] at hx; cases hx
    refine .inr ⟨?_, h, r, hk', hi, hr⟩
    rintro (hgone | ⟨x, c, s, hop, -⟩)
    · rw [hk'] at hgone; cases hgone
    · exact hc c hop
  · rw [hk] at hx; cases hx
    obtain ⟨w, hw⟩ := hb.sound.shows k h hk
    have hout := (Change.outcome hw c).1
    rcases hout.record?_of_waiting hw.isScope_current hi hother with
      ⟨⟨s, hs, hin⟩, hnone⟩ | ⟨hnot, r', hi', hr'⟩
    · refine .inl ⟨.inr ⟨h, c, s, rfl, hk, hs, hin⟩, hran' ?_⟩
      rw [Ledger.has_of_hold hk']
      exact Tree.holds_eq_false (by rw [Tree.release?, hnone]; rfl)
    · refine .inr ⟨?_, c.apply h, r', hk', hi', hr'.trans hr⟩
      rintro (hgone | ⟨x, c', s, hop, hx, hs, hin⟩)
      · rw [hk'] at hgone; cases hgone
      · cases hop
        rw [hk] at hx; cases hx
        exact hnot s hs hin
  · exact absurd hlt (Nat.ne_of_lt (hb.sound.lt k h hk))

/-! ## A release that is given -/

/-- A commit gives its release to the record, if the record is there; otherwise
    the release runs at once. -/
theorem commit_step (hb : Balanced l gs) {r : Release}
    (hn : ((gs ++ [(⟨i, r⟩ : Due Release)]).map (·.record)).Nodup) :
    tally l.ran ⟨i, r⟩ = 0 ∧
      (∀ h o old, l.hold k = some h → h.tree.record? i = some (o, old) →
        ((Op.change k (.commit i r)).step l).Waits k o ⟨i, r⟩) ∧
      ((∀ h, l.hold k = some h → h.tree.record? i = none) →
        tally ((Op.change k (.commit i r)).step l).ran ⟨i, r⟩ = 1) := by
  have hzero : tally gs ⟨i, r⟩ = 0 := tally_eq_zero_iff.2 fun e he heq => by
    rw [List.map_append, List.nodup_append] at hn
    exact hn.2.2 _ (List.mem_map_of_mem he) i (by simp) (Due.outline_eq_iff.1 heq).1
  refine ⟨Nat.le_zero.1 (hzero ▸ hb.ran_le _), fun h o old hk hi => ?_, fun hnone => ?_⟩
  · have hcommit := Tree.commit_of_record (r := r) (Tree.record?_eq_some_iff.1 hi)
    have hdue : Change.due (.commit i r) h = [] := by rw [Change.due, hcommit]; rfl
    have hstep : (Op.change k (.commit i r)).step l = l.onHold k (Change.apply (.commit i r)) := by
      rw [Op.step, Ledger.answer_of_hold hk, hdue]; rfl
    refine ⟨Change.apply (.commit i r) h, r, ?_, ?_, rfl⟩
    · rw [hstep, Ledger.hold_onHold, if_pos rfl, hk]; rfl
    · rw [Change.apply, hcommit]
      have hset := Tree.record?_set (Tree.record?_eq_some_iff.1 hi)
        (show (h.tree.commit i r).2.nodes = _ by rw [hcommit]) i
      rw [if_pos rfl, hcommit] at hset
      exact hset
  · have hanswer : (l.answer k).tree.record? i = none := by
      rcases hk : l.hold k with _ | h
      · rw [Ledger.answer, hk]; exact Tree.record?_new _ i
      · rw [Ledger.answer_of_hold hk]; exact hnone h hk
    have hcommit := Tree.commit_of_not_record (t := (l.answer k).tree) (r := r)
      fun o old hi => by rw [Tree.record?_eq_some_iff.2 hi] at hanswer; cases hanswer
    have hdue : Change.due (.commit i r) (l.answer k) = [⟨i, r⟩] := by
      rw [Change.due, hcommit]; rfl
    obtain ⟨new, hran, hturn⟩ := Ledger.inTurn_releaseAll Ledger.outlasts_drop [⟨i, r⟩]
      (l.onHold k (Change.apply (.commit i r)))
    rw [← hdue] at hran
    have hle : tally ((Op.change k (.commit i r)).step l).ran ⟨i, r⟩ ≤ 1 :=
      ((hb.step (.change k (.commit i r)) hn).ran_le _).trans (tally_le_one hn _)
    have hpos : 0 < tally ((Op.change k (.commit i r)).step l).ran ⟨i, r⟩ := by
      refine tally_pos_iff.2 ⟨⟨i, r⟩, ?_, rfl⟩
      rw [Op.step, hran, List.mem_append, List.mem_reverse]
      exact .inl (hturn.sublist.subset (List.mem_singleton_self _))
    omega

end Balanced

/-- A release waits as long as nothing tears its owner down. -/
theorem Trail.waits (ht : Trail l steps l') (hb : Balanced l gs)
    (hn : ((gs ++ given steps).map (·.record)).Nodup) (hw : l.Waits k o d)
    (hs : ∀ s ∈ steps, ¬ s.op.Tears s.before.ledger k o) : l'.Waits k o d := by
  induction ht generalizing gs with
  | nil => exact hw
  | @cons s steps l' hstep _ ih =>
    rw [given_cons, ← List.append_assoc] at hn
    have hn' := nodup_of_append hn
    rcases hb.waits_step s.op hn' hw with ⟨htears, -⟩ | ⟨-, hw'⟩
    · exact absurd htears (hs s (List.mem_cons_self ..))
    · rw [hstep] at ih
      exact ih (hb.step s.op hn') hn hw' fun s' hs' => hs s' (List.mem_cons_of_mem _ hs')

/-! ## A whole run -/

/-- What becomes of a release that the operation `commit`, on the context `k`, gives
    to a reservation of the context `k₀` whose owner is `o`; `mid` are the
    operations since the reservation, and `post` those after the commit. -/
structure Course (k₀ k : ContextId) (o : Index) (d : Due Release) (mid : List Step) (commit : Step)
    (post : List Step) : Prop where
  before : tally commit.before.journal.ran d = 0
  /-- It runs during the commit if the record is gone or belongs to another context. -/
  late : (k ≠ k₀ ∨ ∃ s ∈ mid, ¬ s.Keeps k₀ d.record) → tally commit.after.journal.ran d = 1
  waits : (k = k₀ ∧ ∀ s ∈ mid, s.Keeps k₀ d.record) → tally commit.after.journal.ran d = 0
  /-- Otherwise it runs at the first teardown of its owner or of a scope above. -/
  torn : (k = k₀ ∧ ∀ s ∈ mid, s.Keeps k₀ d.record) → ∀ pre s more, post = pre ++ s :: more →
    (∀ s' ∈ pre, ¬ s'.op.Tears s'.before.ledger k o) →
      tally s.before.journal.ran d = 0 ∧
        (s.op.Tears s.before.ledger k o → tally s.after.journal.ran d = 1) ∧
          (¬ s.op.Tears s.before.ledger k o → tally s.after.journal.ran d = 0)

/-- What becomes of the releases of a run that leaves the world `w`. -/
structure Conserved (steps : List Step) (w : World) : Prop where
  /-- When all contexts are dropped, every release has run once. -/
  once : (∀ k, w.context? k = none) → ∀ d ∈ given steps, tally w.journal.ran d = 1
  /-- At no time has a release run more often than once. -/
  atMost : ∀ s ∈ steps, ∀ d, tally s.after.journal.ran d ≤ 1
  /-- A reservation that is never committed runs nothing. -/
  uncommitted : ∀ i, (∀ d ∈ given steps, d.record ≠ i) → ∀ d ∈ w.journal.ran, d.record ≠ i
  /-- Contexts are told apart by their identities, which are 32 bits wide. -/
  course : ∀ pre reserve mid commit post k₀ k o i r,
    steps = pre ++ reserve :: (mid ++ commit :: post) → reserve.Reserves k₀ o i →
    commit.op = .change k (.commit i r) → (k = k₀ ∨ UInt32.ofNat k ≠ UInt32.ofNat k₀) →
      Course k₀ k o ⟨i, r⟩ mid commit post

/-- A reservation leaves its record in the context. -/
theorem Step.Reserves.record {s : Step} (hs : s.Reserves k o i)
    (hstep : s.after.ledger = s.op.step s.before.ledger) (hl : s.before.ledger.Sound) :
    ∃ h, s.after.ledger.hold k = some h ∧ h.tree.record? i = some (o, none) := by
  obtain ⟨hres, x, hx, rfl⟩ := hs
  obtain ⟨h, h', hk, hk', -, hi⟩ := Step.reserved?_spec hres hstep hl
  rw [hx] at hk; cases hk
  exact ⟨h', hk', Tree.record?_eq_some_iff.2 hi⟩

theorem Balanced.of_split {pre post : List Step} {s : Step}
    (ht : Trail l (pre ++ s :: post) l') (hb : Balanced l []) (hlin : Linear (pre ++ s :: post)) :
    Balanced s.before.ledger (given pre) ∧ Balanced s.after.ledger (given pre ++ s.op.given) ∧
      ((given pre ++ s.op.given ++ given post).map (·.record)).Nodup := by
  rw [Linear, given_append, given_cons, ← List.append_assoc] at hlin
  obtain ⟨hpre, hs, -⟩ := ht.split
  have hb' := hpre.balanced hb (nodup_of_append (nodup_of_append hlin))
  refine ⟨hb', ?_, hlin⟩
  rw [hs]
  exact hb'.step s.op (nodup_of_append hlin)

theorem vacations_mid {pre mid post : List Step} (s c : Step) (k : ContextId) (n : UInt32) :
    vacations mid k n ≤ vacations (pre ++ s :: (mid ++ c :: post)) k n := by
  rw [vacations_append, vacations_cons, vacations_append]
  omega

/-- A release that waits runs at the first teardown of its owner or of a scope
    above, and not before. -/
theorem Balanced.first_teardown {pre post : List Step} {s : Step} (hb : Balanced l gs)
    (ht : Trail l (pre ++ s :: post) l') (hn : ((gs ++ given (pre ++ s :: post)).map (·.record)).Nodup)
    (hw : l.Waits k o d) (hnot : ∀ s' ∈ pre, ¬ s'.op.Tears s'.before.ledger k o) :
    tally s.before.journal.ran d = 0 ∧
      (s.op.Tears s.before.ledger k o → tally s.after.journal.ran d = 1) ∧
        (¬ s.op.Tears s.before.ledger k o → tally s.after.journal.ran d = 0) := by
  obtain ⟨hpre, hstep, -⟩ := ht.split
  rw [given_append, given_cons, ← List.append_assoc, ← List.append_assoc] at hn
  have hn' := nodup_of_append hn
  have hws := hpre.waits hb (nodup_of_append hn') hw hnot
  have hbs := hpre.balanced hb (nodup_of_append hn')
  have hbs' := hbs.step s.op hn'
  refine ⟨(hbs.of_waits hws).1, fun htears => ?_, fun htears => ?_⟩
  all_goals
    show tally s.after.ledger.ran d = _
    rw [hstep]
    rcases hbs.waits_step s.op hn' hws with ⟨h, hran⟩ | ⟨h, hw'⟩
  · exact hran
  · exact absurd htears h
  · exact absurd h htears
  · exact (hbs'.of_waits hw').1

/-- The record of a reservation is there if the context is its own and has kept it,
    and otherwise not. -/
theorem Step.Reserves.record_iff {s : Step} {k₀ : ContextId} (hs : s.Reserves k₀ o i)
    (hstep : s.after.ledger = s.op.step s.before.ledger) (hl : s.before.ledger.Sound)
    (ht : Trail s.after.ledger steps l') (hv : vacations steps k₀ i.slot < 2 ^ 32)
    (hid : k = k₀ ∨ UInt32.ofNat k ≠ UInt32.ofNat k₀) :
    ((k = k₀ ∧ ∀ s ∈ steps, s.Keeps k₀ i) →
        ∃ h old, l'.hold k = some h ∧ h.tree.record? i = some (o, old)) ∧
      ((k ≠ k₀ ∨ ∃ s ∈ steps, ¬ s.Keeps k₀ i) →
        ∀ h, l'.hold k = some h → h.tree.record? i = none) := by
  obtain ⟨h₀, hk₀, hi₀⟩ := hs.record hstep hl
  have hl₀ : s.after.ledger.Sound := by rw [hstep]; exact hl.step s.op
  refine ⟨?_, fun hor h hk => ?_⟩
  · rintro ⟨rfl, hall⟩
    exact (record_iff_keeps ht hl₀ hk₀ hi₀ hv).1 hall
  · rw [Option.eq_none_iff_forall_ne_some]
    rintro ⟨o', old⟩ hi
    have hi := Tree.record?_eq_some_iff.1 hi
    have hi₀ := Tree.record?_eq_some_iff.1 hi₀
    -- a context finds only its own records
    have harena := (Slots.arena_of_get? hi).symm.trans (Slots.arena_of_get? hi₀)
    rw [(ht.sound hl₀).arena k h hk, hl₀.arena k₀ h₀ hk₀] at harena
    obtain rfl := hid.resolve_right fun hne => hne harena
    rcases hor with hne | ⟨s, hs, hnot⟩
    · exact hne rfl
    · exact hnot ((alive_iff_keeps ht hl₀ hk₀ hk hi₀ hv).1 (by rw [hi]; rfl) s hs)

/-- The course of a release that is given to a reservation. -/
theorem course_of_split {pre mid post : List Step} {reserve commit : Step} {k₀ : ContextId}
    {r : Release} (ht : Trail l (pre ++ reserve :: (mid ++ commit :: post)) l')
    (hb : Balanced l []) (hlin : Linear (pre ++ reserve :: (mid ++ commit :: post)))
    (hv : vacations mid k₀ i.slot < 2 ^ 32) (hres : reserve.Reserves k₀ o i)
    (hcom : commit.op = .change k (.commit i r))
    (hid : k = k₀ ∨ UInt32.ofNat k ≠ UInt32.ofNat k₀) :
    Course k₀ k o ⟨i, r⟩ mid commit post := by
  obtain ⟨hb₁, -, -⟩ := Balanced.of_split ht hb hlin
  obtain ⟨-, hreserve, hrest⟩ := ht.split
  obtain ⟨hmid, hcommit, hpost⟩ := hrest.split
  obtain ⟨hthere, hgone⟩ := hres.record_iff hreserve hb₁.sound hmid hv hid
  have hassoc : pre ++ reserve :: (mid ++ commit :: post) =
      (pre ++ reserve :: mid) ++ commit :: post := by simp
  rw [hassoc] at ht hlin
  obtain ⟨hb₂, hb₂', hn⟩ := Balanced.of_split ht hb hlin
  have hgiven : commit.op.given = [⟨i, r⟩] := by rw [hcom]; rfl
  rw [hgiven] at hb₂' hn
  obtain ⟨hbefore, hlive, hlate⟩ := hb₂.commit_step (k := k) (nodup_of_append hn)
  rw [← hcom, ← hcommit] at hlive hlate
  have hwaits : (k = k₀ ∧ ∀ s ∈ mid, s.Keeps k₀ i) → commit.after.ledger.Waits k o ⟨i, r⟩ := by
      intro hw
      obtain ⟨h, old, hk, hi⟩ := hthere hw
      exact hlive h o old hk hi
  refine ⟨hbefore, fun hor => hlate (hgone hor), fun hw => (hb₂'.of_waits (hwaits hw)).1,
    fun hw before s more hsplit hnot => ?_⟩
  subst hsplit
  exact hb₂'.first_teardown hpost hn (hwaits hw) hnot

/-- Every release runs exactly once, in every run that commits no reservation
    twice and vacates no slot 2^32 times. -/
theorem releases_once {α : Type} {run : Run α} {host : Host} {identity : String} {log : Option Log}
    {r : Except Stop α} {w : World} (hrun : Performs run (World.new host identity log) steps r w)
    (hlin : Linear steps) (hv : ∀ k n, vacations steps k n < 2 ^ 32) : Conserved steps w := by
  have hb₀ := balanced_new host identity log
  have hb : Balanced w.ledger (given steps) := hrun.trail.balanced hb₀ hlin
  refine ⟨fun hall d hd => ?_, fun s hs d => ?_, fun i hi d hd => ?_, ?_⟩
  · have hone : tally (given steps) d = 1 := by
      have hpos := tally_pos_iff.2 ⟨d, hd, rfl⟩
      have hle := tally_le_one hlin d
      omega
    exact hb.ran_of_gone hone fun k => Ledger.has_of_none (World.hold_of_context? (hall k))
  · obtain ⟨pre, post, rfl⟩ := List.append_of_mem hs
    obtain ⟨-, hb', -⟩ := Balanced.of_split hrun.trail hb₀ hlin
    exact (hb'.ran_le d).trans (tally_le_one hb'.linear d)
  · have hpos : 0 < tally w.journal.ran d := tally_pos_iff.2 ⟨d, hd, rfl⟩
    obtain ⟨e, he, heq⟩ := tally_pos_iff.1 (Nat.lt_of_lt_of_le hpos (hb.ran_le d))
    rw [← (Due.outline_eq_iff.1 heq).1]
    exact hi e he
  · rintro pre reserve mid commit post k₀ k o i r rfl hres hcom hid
    exact course_of_split hrun.trail hb₀ hlin
      (Nat.lt_of_le_of_lt (vacations_mid reserve commit k₀ i.slot) (hv k₀ i.slot)) hres hcom hid

/-- The theorem above where a context with a release in it was dropped. -/
theorem releases_once_leftScope : ∃ steps w d, Conserved steps w ∧ given steps = [d] ∧
    (∀ k, w.context? k = none) ∧ tally w.journal.ran d = 1 := by
  obtain ⟨steps, w, hperf, hgiven, hlength⟩ : ∃ steps w, Performs leftScope .start steps (.ok ()) w ∧
      given steps = [⟨⟨0, 2, 0⟩, .note "release" false⟩] ∧ steps.length = 5 :=
    ⟨_, _, .bind (.of_ok (.newContext "example") rfl rfl)
      (.bind (.of_ok (.change 0 .push) rfl rfl)
      (.bind (.of_ok (.change 0 .reserve) rfl rfl)
      (.bind (.of_ok (.change 0 (.commit ⟨0, 2, 0⟩ (.note "release" false))) rfl rfl)
      (.bind (.of_ok (.change 0 .pop) rfl rfl) (.aside rfl rfl))))), rfl, rfl⟩
  obtain rfl : w = (leftScope.exec .start).2 := by rw [hperf.exec_eq]
  obtain ⟨s, hop, hrun⟩ : ∃ s, s.op = .dropContext 0 ∧ Performs (leftScope >>= fun _ =>
      Run.dropContext 0) .start (steps ++ [s]) (.ok ()) ((Run.dropContext 0).exec
        (leftScope.exec .start).2).2 :=
    ⟨_, rfl, hperf.bind (.of_ok (.dropContext 0) rfl (by decide +kernel))⟩
  have hgiven' : given (steps ++ [s]) = [⟨⟨0, 2, 0⟩, .note "release" false⟩] := by
    rw [given_append, given_cons, hop, hgiven]; rfl
  have hlin : Linear (steps ++ [s]) := by rw [Linear, hgiven']; decide
  have hc := releases_once hrun hlin fun k n =>
    Nat.lt_of_le_of_lt (vacations_le _ k n) (by
      rw [List.length_append, hlength, List.length_singleton]; decide)
  have hsize : ((Run.dropContext 0).exec (leftScope.exec .start).2).2.contexts.size = 1 := by
    decide +kernel
  have hzero : (((Run.dropContext 0).exec (leftScope.exec .start).2).2.context? 0).isNone = true := by
    decide +kernel
  have hall : ∀ k, ((Run.dropContext 0).exec (leftScope.exec .start).2).2.context? k = none := by
      intro k
      rcases Nat.eq_zero_or_pos k with rfl | hk
      · exact Option.isNone_iff_eq_none.1 hzero
      · rw [World.context?, Array.getElem?_eq_none (by omega)]; rfl
  exact ⟨steps ++ [s], _, _, hc, hgiven', hall,
    hc.once hall _ (by rw [hgiven']; exact List.mem_singleton_self _)⟩

end ScopedResources
