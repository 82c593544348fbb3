/-
  Payloads.

  A block or a text belongs to the scope that was current when it was made.  Until that
  scope is torn down, or one that it is within, nothing but a write to the block itself
  changes what is read from it; from then on there is nothing to read any more, whatever
  uses its slot.

  * `Block.get?_overwritten`: a byte of a block is the one that was written to it last.
  * `Change.writes?` and `written`: what operations write to the block of a record.
  * `Change.record?_apply`, `Step.record?_kept`, `Trail.record?_kept`: what becomes of a
    record while its scope stays; `Trail.gone_of_tears` when it does not.
  * `payload_stable`: what a context answers about a payload at any later time.
-/
import Mathlib.Data.List.Infix
import ScopedResources.Proofs.Descriptors
import ScopedResources.Proofs.Isolation
import ScopedResources.Proofs.Razing

namespace ScopedResources

variable {w u u' : World} {k : ContextId} {c c₀ : Context} {h h' : Hold} {i o s : Index}
  {t t' : Tree Release} {f : Forest Release} {r r' : Release} {old : Option Release} {p : Payload}
  {l l' : Ledger} {steps since : List Step} {step : Step}

/-! ## Bytes of a block -/

namespace Block

/-- A block after some writes, the first one first. -/
def overwritten (b : Block) (writes : List (Nat × UInt8)) : Block :=
  writes.foldl (fun b e => b.set e.1 e.2) b

theorem overwritten_snoc (b : Block) (writes : List (Nat × UInt8)) (e : Nat × UInt8) :
    b.overwritten (writes ++ [e]) = (b.overwritten writes).set e.1 e.2 :=
  List.foldl_append

theorem size_set (b : Block) (position : Nat) (byte : UInt8) :
    (b.set position byte).size = b.size := by
  unfold set
  split <;> rfl

theorem lookup_filter_ne {position j : Nat} (hj : j ≠ position) (l : List (Nat × UInt8)) :
    (l.filter (·.1 ≠ position)).lookup j = l.lookup j := by
  induction l with
  | nil => rfl
  | cons e l ih =>
    rw [List.filter_cons, List.lookup_cons]
    by_cases he : e.1 = position
    · rw [if_neg (by simp [he]), ih, he, beq_eq_false_iff_ne.2 hj]
    · rw [if_pos (by simp [he]), List.lookup_cons, ih]

theorem get?_set (b : Block) (position j : Nat) (byte : UInt8) :
    (b.set position byte).get? j =
      if j = position then (b.get? j).map fun _ => byte else b.get? j := by
  rw [get?, size_set, get?]
  by_cases hlt : j < b.size
  · rw [if_pos hlt, if_pos hlt]
    by_cases hj : j = position
    · subst hj
      rw [if_pos rfl, set, if_pos hlt]
      simp
    · rw [if_neg hj, set]
      split
      · rw [List.lookup_cons, beq_eq_false_iff_ne.2 hj, lookup_filter_ne hj]
      · rfl
  · rw [if_neg hlt, if_neg hlt]
    simp

theorem size_overwritten (b : Block) (writes : List (Nat × UInt8)) :
    (b.overwritten writes).size = b.size := by
  induction writes using List.reverseRecOn with
  | nil => rfl
  | append_singleton writes e ih => rw [overwritten_snoc, size_set, ih]

/-- A byte is the one that was written last, or what it was before. -/
theorem get?_overwritten (b : Block) (writes : List (Nat × UInt8)) (j : Nat) :
    (b.overwritten writes).get? j = (b.get? j).map fun byte => (writes.reverse.lookup j).getD byte := by
  induction writes using List.reverseRecOn with
  | nil => simp [overwritten]
  | append_singleton writes e ih =>
    rw [overwritten_snoc, get?_set, ih, List.reverse_append, List.reverse_singleton,
      List.singleton_append, List.lookup_cons]
    by_cases hj : j = e.1
    · rw [if_pos hj, beq_iff_eq.2 hj, Option.map_map]
      rfl
    · rw [if_neg hj, beq_eq_false_iff_ne.2 hj]

end Block

/-! ## Writes -/

/-- A release whose block has got some bytes. -/
def Release.overwritten (r : Release) (writes : List (Nat × UInt8)) : Release :=
  match r with
  | .forget (.block b) => .forget (.block (b.overwritten writes))
  | .forget (.text text) => .forget (.text text)
  | .note label panics => .note label panics
  | .dropContext label victim => .dropContext label victim
  | .close descriptor => .close descriptor
  | .restoreName previous => .restoreName previous
  | .leaveLock lock => .leaveLock lock

/-- What a change writes to the block of a record, and where. -/
def Change.writes? (i : Index) : Change → Option (Nat × UInt8)
  | write record position byte => if record = i then some (position, byte) else none
  | push | pop | destroy _ | leave _ | reserve | commit _ _ | enter _ | exit _ _ => none

/-- What an operation writes to the block of a record of the context `k`. -/
def Step.writes? (s : Step) (k : ContextId) (i : Index) : Option (Nat × UInt8) :=
  match s.op with
  | .change j c => if j = k then c.writes? i else none
  | .newContext _ | .dropContext _ => none

/-- What operations write to the block of a record, in order. -/
def written (steps : List Step) (k : ContextId) (i : Index) : List (Nat × UInt8) :=
  steps.filterMap (·.writes? k i)

theorem Release.overwritten_nil (r : Release) : r.overwritten [] = r := by
  rcases r with _ | _ | _ | (_ | _) | _ | _ <;> rfl

theorem Release.overwritten_append (r : Release) (writes more : List (Nat × UInt8)) :
    (r.overwritten writes).overwritten more = r.overwritten (writes ++ more) := by
  rcases r with _ | _ | _ | (b | _) | _ | _
  case forget.block => simp [overwritten, Block.overwritten]
  all_goals rfl

theorem Release.overwritten_of_not_block (hr : ∀ b, r ≠ .forget (.block b))
    (writes : List (Nat × UInt8)) : r.overwritten writes = r := by
  rcases r with _ | _ | _ | (b | _) | _ | _
  case forget.block => exact absurd rfl (hr b)
  all_goals rfl

/-! ## One change -/

namespace Tree

/-- A record that is there stays as it is when a node is added. -/
theorem record?_addChild_of_some (node : Node Release) (hc : t.isScope t.current = true)
    (hi : t.record? i = some (o, old)) : (t.addChild node).2.record? i = some (o, old) := by
  obtain ⟨p, cs, hc⟩ := isScope_iff.1 hc
  rcases ha : t.addChild node with ⟨_ | j, v⟩
  · rw [addChild_none ha, hi]
  · have hne : i ≠ j := by
      rintro rfl
      obtain ⟨_, hI, -, -⟩ := addChild_some hc ha
      rw [record?, hI.fresh] at hi
      cases hi
    exact (record?_addChild hc ha rfl hne).trans hi

theorem isScope_congr (hn : t'.nodes = t.nodes) (s : Index) : t'.isScope s = t.isScope s := by
  rw [isScope, isScope, scope?, scope?, hn]

theorem record?_push (hc : t.isScope t.current = true) (hi : t.record? i = some (o, old)) :
    t.push.2.record? i = some (o, old) := by
  have h := record?_addChild_of_some (.scope (some t.current) []) hc hi
  rw [push]
  split
  · rename_i ha
    rw [ha] at h
    exact h
  · rename_i ha
    rw [ha] at h
    exact h

theorem record?_commit_ne {j : Index} (hj : i ≠ j) (r : Release) :
    (t.commit j r).2.record? i = t.record? i := by
  rcases hrec : t.record? j with _ | ⟨o, old⟩
  · have hnot : ∀ o old, t.nodes.get? j ≠ some (.record o old) := fun o old h => by
      rw [record?_eq_some_iff.2 h] at hrec
      cases hrec
    rw [commit_of_not_record hnot]
  · have hget := record?_eq_some_iff.1 hrec
    have hset := record?_set hget (show (t.commit j r).2.nodes = t.nodes.set j (.record o (some r)) by
      rw [commit_of_record hget]) i
    rwa [if_neg hj] at hset

theorem record?_write_self {position : Nat} {byte : UInt8} (hi : t.record? i = some (o, some r)) :
    (t.write i position byte).record? i = some (o, some (r.overwritten [(position, byte)])) := by
  have hrelease : t.release? i = some r := by rw [release?, hi]; rfl
  have hget := record?_eq_some_iff.1 hi
  unfold write
  split
  · rename_i b hb
    rw [hrelease] at hb
    cases hb
    have hset := record?_set hget (show (t.commit i (.forget (.block (b.set position byte)))).2.nodes =
      t.nodes.set i _ by rw [commit_of_record hget]) i
    rw [if_pos rfl] at hset
    exact hset
  · rename_i hb
    rw [hi, Release.overwritten_of_not_block fun b he => hb b (by rw [hrelease, he])]

theorem record?_write_ne {j : Index} {position : Nat} {byte : UInt8} (hj : i ≠ j) :
    (t.write j position byte).record? i = t.record? i := by
  unfold write
  split
  · exact record?_commit_ne hj _
  · rfl

end Tree

theorem Change.isScope_of_tears_eq_none {c : Change} (ht : c.tears h = none) :
    (∀ s, c = .destroy s ∨ c = .leave s → h.tree.isScope s = false) ∧
      ∀ call how, c = .exit call how → (∀ value, how ≠ .returned value) →
        h.tree.isScope call.boundary = false := by
  have hnone : ∀ s, (if h.tree.isScope s then some s else none) = none → h.tree.isScope s = false := by
    intro s hs
    by_contra hne
    rw [Bool.not_eq_false] at hne
    rw [if_pos hne] at hs
    cases hs
  constructor
  · rintro s (rfl | rfl)
    · exact hnone s ht
    · exact hnone s ht
  · rintro call how rfl hhow
    cases how with
    | returned value => exact absurd rfl (hhow value)
    | failed _ => exact hnone _ ht
    | panicked _ => exact hnone _ ht

/-- A change that tears down another scope leaves the record alone. -/
theorem Change.record?_of_tears (hf : h.tree.Shows f) (c : Change) (hi : h.tree.record? i = some (o, old))
    (ht : c.tears h = some s) (hs : ¬ h.tree.isWithin s o = true) :
    (c.apply h).tree.record? i = some (o, old) := by
  obtain ⟨hout, -⟩ := c.outcome hf
  rw [ht] at hout
  generalize c.given = given at hout
  generalize c.due h = due at hout
  cases hout with
  | torn hf' hg hT => rw [hT.record?, if_neg fun hmem => hs ((hf'.mem_tornBy_iff hg hi).1 hmem), hi]

/-- A change that tears nothing down leaves a record alone, except that it may write to its
    block. -/
theorem Change.record?_of_idle (hf : h.tree.Shows f) (c : Change)
    (hi : h.tree.record? i = some (o, some r)) (hcommit : ∀ r', c ≠ .commit i r')
    (ht : c.tears h = none) :
    (c.apply h).tree.record? i = some (o, some (r.overwritten (c.writes? i).toList)) := by
  have hc := hf.isScope_current
  obtain ⟨hdead, hexit⟩ := Change.isScope_of_tears_eq_none ht
  have hidle : (c.apply h).tree.record? i = some (o, some r) → c.writes? i = none →
      (c.apply h).tree.record? i = some (o, some (r.overwritten (c.writes? i).toList)) := by
    intro hsame hnone
    rw [hsame, hnone, Option.toList_none, Release.overwritten_nil]
  have hsame : ∀ {t : Tree Release}, t.nodes = h.tree.nodes → t.record? i = some (o, some r) :=
    fun hn => (Tree.record?_congr (by rw [hn])).trans hi
  cases c with
  | push => exact hidle (Tree.record?_push hc hi) rfl
  | pop => exact hidle (hsame (Tree.nodes_pop _)) rfl
  | destroy s =>
    refine hidle (hsame ?_) rfl
    rw [Change.apply, Tree.destroy_of_not_scope (hdead s (.inl rfl))]
  | leave s =>
    refine hidle (hsame ?_) rfl
    have hn : (h.tree.leaving s).nodes = h.tree.nodes := by
      unfold Tree.leaving
      split <;> rfl
    have hs : (h.tree.leaving s).isScope s = false := by
      rw [Tree.isScope_congr hn]
      exact hdead s (.inr rfl)
    rw [Change.apply, Tree.destroy_of_not_scope hs]
    exact hn
  | reserve => exact hidle (Tree.record?_addChild_of_some _ hc hi) rfl
  | commit j r' =>
    have hj : i ≠ j := by
      rintro rfl
      exact hcommit r' rfl
    exact hidle ((Tree.record?_commit_ne hj r').trans hi) rfl
  | write j position byte =>
    by_cases hj : j = i
    · subst hj
      rw [Change.writes?, if_pos rfl]
      exact Tree.record?_write_self hi
    · refine hidle ((Tree.record?_write_ne (Ne.symm hj)).trans hi) ?_
      rw [Change.writes?, if_neg hj]
  | enter detail =>
    refine hidle ?_ rfl
    rw [Change.apply]
    rcases hp : h.tree.push with ⟨_ | b, v⟩
    · exact hi
    · have hpush := Tree.record?_push hc hi
      rw [hp] at hpush
      exact hpush
  | exit call how =>
    cases how with
    | returned _ => exact hidle (hsame rfl) rfl
    | failed _ | panicked _ =>
      refine hidle (hsame ?_) rfl
      have hs : (h.tree.enter call.resume).isScope call.boundary = false := hexit call _ rfl (by simp)
      rw [Change.apply, Tree.destroy_of_not_scope hs]
      rfl

/-- A change that does not tear down the owner of a record leaves the record alone, except
    that it may write to its block. -/
theorem Change.record?_apply (hf : h.tree.Shows f) (c : Change)
    (hi : h.tree.record? i = some (o, some r)) (hcommit : ∀ r', c ≠ .commit i r')
    (htears : ∀ s, c.tears h = some s → ¬ h.tree.isWithin s o = true) :
    (c.apply h).tree.record? i = some (o, some (r.overwritten (c.writes? i).toList)) := by
  rcases ht : c.tears h with _ | s
  · exact c.record?_of_idle hf hi hcommit ht
  · have hwrites : c.writes? i = none := by
      cases c with
      | write j position byte => cases ht
      | _ => rfl
    rw [hwrites, Option.toList_none, Release.overwritten_nil]
    exact c.record?_of_tears hf hi ht (htears s ht)

/-! ## One operation -/

/-- An operation that does not tear down the owner of a record leaves the record alone,
    except that it may write to its block. -/
theorem Step.record?_kept (hl : step.before.ledger.Sound)
    (hstep : step.after.ledger = step.op.step step.before.ledger)
    (hk : step.before.ledger.hold k = some h) (hi : h.tree.record? i = some (o, some r))
    (hcommit : ∀ r', step.op ≠ .change k (.commit i r'))
    (htears : ¬ step.op.Tears step.before.ledger k o) :
    ∃ h', step.after.ledger.hold k = some h' ∧
      h'.tree.record? i = some (o, some (r.overwritten (step.writes? k i).toList)) := by
  rw [hstep]
  rcases hk' : (step.op.step step.before.ledger).hold k with _ | h'
  · exact absurd (.inl hk') htears
  refine ⟨h', rfl, ?_⟩
  rcases hold_step step.op hk' with ⟨hop, hsame⟩ | ⟨x, c, hx, hop, rfl⟩ | ⟨program, -, hcount, -⟩
  · rw [hk] at hsame
    cases hsame
    have hwrites : step.writes? k i = none := by
      unfold Step.writes?
      split
      · rename_i j c hc
        exact if_neg fun hj : j = k => hop c (hj ▸ hc)
      all_goals rfl
    rw [hwrites, Option.toList_none, Release.overwritten_nil, hi]
  · rw [hk] at hx
    cases hx
    obtain ⟨f, hf⟩ := hl.shows k h hk
    have hwrites : step.writes? k i = c.writes? i := by
      rw [Step.writes?, hop]
      exact if_pos rfl
    rw [hwrites]
    refine c.record?_apply hf hi (fun r' hc => ?_) fun s hs hin => ?_
    · exact hcommit r' (by rw [hop, hc])
    · exact htears (.inr ⟨h, c, s, hop, hk, hs, hin⟩)
  · exact absurd hcount (Nat.ne_of_lt (hl.lt k h hk))

/-- An operation that tears down the owner of a record takes the record away. -/
theorem Step.not_keeps_of_tears (hl : step.before.ledger.Sound)
    (hstep : step.after.ledger = step.op.step step.before.ledger)
    (hk : step.before.ledger.hold k = some h) (hi : h.tree.record? i = some (o, old))
    (htears : step.op.Tears step.before.ledger k o) : ¬ step.Keeps k i := by
  rintro ⟨h', hk', halive⟩
  rw [hstep] at hk'
  rcases htears with hnone | ⟨x, c, s, hop, hx, hs, hin⟩
  · rw [hnone] at hk'
    cases hk'
  rw [hk] at hx
  cases hx
  rcases hold_step step.op hk' with ⟨hother, -⟩ | ⟨x, c', hx, hop', rfl⟩ | ⟨program, hnew, -⟩
  · exact hother c hop
  · rw [hop] at hop'
    cases hop'
    rw [hk] at hx
    cases hx
    obtain ⟨f, hf⟩ := hl.shows k h hk
    obtain ⟨hout, -⟩ := c.outcome hf
    rw [hs] at hout
    generalize c.given = given at hout
    generalize c.due h = due at hout
    cases hout with
    | torn hf' hg hT =>
      rw [hT.gone i ((hf'.mem_tornBy_iff hg hi).2 hin)] at halive
      cases halive
  · rw [hop] at hnew
    cases hnew

/-! ## Operations one after the other -/

/-- As long as nothing tears down its owner, a record stays, and all that changes is what is
    written to its block. -/
theorem Trail.record?_kept (ht : Trail l steps l') (hl : l.Sound) (hk : l.hold k = some h)
    (hi : h.tree.record? i = some (o, some r))
    (hcommit : ∀ s ∈ steps, ∀ r', s.op ≠ .change k (.commit i r'))
    (htears : ∀ s ∈ steps, ¬ s.op.Tears s.before.ledger k o) :
    ∃ h', l'.hold k = some h' ∧
      h'.tree.record? i = some (o, some (r.overwritten (written steps k i))) := by
  induction ht generalizing h r with
  | nil =>
    refine ⟨h, hk, ?_⟩
    rw [written, List.filterMap_nil, Release.overwritten_nil]
    exact hi
  | @cons s steps l' hs _ ih =>
    obtain ⟨hop, hcommit⟩ := List.forall_mem_cons.1 hcommit
    obtain ⟨hnot, htears⟩ := List.forall_mem_cons.1 htears
    obtain ⟨x, hx, hxi⟩ := Step.record?_kept hl hs hk hi hop hnot
    obtain ⟨h', hk', hi'⟩ := ih (by rw [hs]; exact hl.step s.op) hx hxi hcommit htears
    refine ⟨h', hk', ?_⟩
    have hwritten : written (s :: steps) k i = (s.writes? k i).toList ++ written steps k i := by
      rw [written, List.filterMap_cons]
      rcases s.writes? k i with _ | e <;> rfl
    rw [hi', Release.overwritten_append, hwritten]

/-- After a teardown of its owner a record is gone, even if its slot is in use again. -/
theorem Trail.gone_of_tears (ht : Trail l steps l') (hl : l.Sound) (hk : l.hold k = some h)
    (hi : h.tree.record? i = some (o, old)) (hv : vacations steps k i.slot < 2 ^ 32)
    (htears : ∃ s ∈ steps, s.op.Tears s.before.ledger k o) (hk' : l'.hold k = some h') :
    h'.tree.nodes.get? i = none := by
  rw [← Option.not_isSome_iff_eq_none]
  intro halive
  have hkeeps := (alive_iff_keeps ht hl hk hk' (Tree.record?_eq_some_iff.1 hi) hv).1 halive
  obtain ⟨s, hs, htears⟩ := htears
  obtain ⟨pre, post, rfl⟩ := List.append_of_mem hs
  obtain ⟨hpre, hstep, -⟩ := ht.split
  rw [vacations_append] at hv
  obtain ⟨x, new, hx, hxi⟩ := (record_iff_keeps hpre hl hk hi (by omega)).1 fun s hs =>
    hkeeps s (List.mem_append_left _ hs)
  exact Step.not_keeps_of_tears (hpre.sound hl) hstep hx hxi htears (hkeeps s (by simp))

/-! ## Payloads -/

/-- The operations that make a payload, and what it is. -/
inductive Creates (k : ContextId) : Run Index → Payload → Prop
  | alloc (size : Nat) : Creates k (Run.alloc k size) (.block (.zeroed size))
  | format {f : Format} {text : String} : f.complete? = some text →
    Creates k (Run.format k f) (.text text)
  | duplicateText (text : String) : Creates k (Run.duplicateText k text) (.text text)

/-- What a record is like that was reserved and committed at once. -/
theorem record?_of_committed {u₁ : World} (hl : u.ledger.Sound) (hc : u.context? k = some c)
    (hreserve : (Run.reserve k).exec u = (.ok i, u₁))
    (hcommit : (Run.commit k i r).exec u₁ = (.ok (), u')) :
    u'.ledger.Sound ∧ ∃ h, u'.ledger.hold k = some h ∧
      h.tree.record? i = some (c.tree.current, some r) := by
  have hstep := Run.step_of_change .reserve rfl hreserve (by simp)
  have hstep' := Run.step_of_change (.commit i r) rfl hcommit (by simp)
  have hreserved : (⟨u, .change k .reserve, u₁⟩ : Step).reserved? k = some i :=
    Step.reserved?_eq_some_iff.2
      ⟨rfl, c.hold, World.hold_of_context? hc, Run.exec_reserve_ok hc hreserve⟩
  obtain ⟨h₀, h₁, hk, hk₁, -, hnode⟩ := Step.reserved?_spec hreserved hstep hl
  rw [World.hold_of_context? hc] at hk
  cases hk
  have hl₁ : u₁.ledger.Sound := by
    rw [hstep]
    exact hl.step _
  refine ⟨by rw [hstep']; exact hl₁.step _, Change.apply (.commit i r) h₁, ?_, ?_⟩
  · have hdue : Change.due (.commit i r) h₁ = [] := by
      rw [Change.due, Tree.commit_of_record hnode]
      rfl
    rw [hstep', Op.step, Ledger.answer_of_hold hk₁, hdue]
    show (u₁.ledger.onHold k _).hold k = _
    rw [Ledger.hold_onHold, if_pos rfl, hk₁]
    rfl
  · have hset := Tree.record?_set hnode (show (Change.apply (.commit i r) h₁).tree.nodes =
      h₁.tree.nodes.set i (.record c.tree.current (some r)) by
        rw [Change.apply, Tree.commit_of_record hnode]
        rfl) i
    rw [if_pos rfl] at hset
    exact hset

theorem Creates.record? {x : Run Index} (hx : Creates k x p) (hl : u.ledger.Sound)
    (hc : u.context? k = some c) (hexec : x.exec u = (.ok i, u')) :
    u'.ledger.Sound ∧ ∃ h, u'.ledger.hold k = some h ∧
      h.tree.record? i = some (c.tree.current, some (.forget p)) := by
  have hformat : ∀ {f : Format} {text : String}, f.complete? = some text →
      (Run.format k f).exec u = (.ok i, u') → u'.ledger.Sound ∧ ∃ h, u'.ledger.hold k = some h ∧
        h.tree.record? i = some (c.tree.current, some (.forget (.text text))) := by
    intro f text hf hexec
    obtain ⟨j, u₁, hreserve, hexec⟩ := Run.exec_of_bind_ok hexec
    rw [hf] at hexec
    obtain ⟨_, u₂, hcommit, hexec⟩ := Run.exec_of_bind_ok hexec
    cases hexec
    exact record?_of_committed hl hc hreserve hcommit
  cases hx with
  | alloc size =>
    obtain ⟨j, u₁, hreserve, hexec⟩ := Run.exec_of_bind_ok hexec
    dsimp only at hexec
    split at hexec
    · obtain ⟨_, _, hthrow, -⟩ := Run.exec_of_bind_ok hexec
      exact absurd hthrow (Run.exec_throwing_ne_ok _ _ _ _)
    · obtain ⟨_, u₂, hcommit, hexec⟩ := Run.exec_of_bind_ok hexec
      cases hexec
      exact record?_of_committed hl hc hreserve hcommit
  | format hf => exact hformat hf hexec
  | duplicateText text => exact hformat rfl hexec

/-- What a context answers about the record of a payload that is still there: the scope `o`
    owns it and is alive, and the payload is as it was made, except for the `writes`. -/
structure Context.Offers (c : Context) (i o : Index) (p : Payload) (writes : List (Nat × UInt8)) :
    Prop where
  owner : c.tree.owner? i = some o
  alive : c.tree.isScope o = true
  text : ∀ text, p = .text text → c.text? i = some text
  block : ∀ size, p = .block (.zeroed size) → ∃ b, c.block? i = some b ∧ b.size = size ∧
    ∀ position, b.get? position =
      if position < size then some ((writes.reverse.lookup position).getD 0) else none

theorem Context.offers_of_record? {writes : List (Nat × UInt8)} (hf : c.tree.Shows f)
    (hi : c.tree.record? i = some (o, some ((Release.forget p).overwritten writes))) :
    c.Offers i o p writes := by
  have hrelease : c.tree.release? i = some ((Release.forget p).overwritten writes) := by
    rw [Tree.release?, hi]
    rfl
  refine ⟨by rw [Tree.owner?, hi]; rfl, hf.isScope_owner hi, ?_, ?_⟩
  · rintro text rfl
    rw [Context.text?, Context.payload?, hrelease]
    rfl
  · rintro size rfl
    refine ⟨(Block.zeroed size).overwritten writes, ?_, Block.size_overwritten _ _, fun position => ?_⟩
    · rw [Context.block?, Context.payload?, hrelease]
      rfl
    · rw [Block.get?_overwritten, Block.get?]
      show Option.map _ (if position < size then some 0 else none) = _
      split <;> rfl

/-- A payload stays as it was made, except for what is written to it, until the scope is torn
    down that was current then, or one that the scope is within; after that there is nothing
    to be found, even if the slot is in use again.  The operations `since` lead from there to
    the world in which its context is asked; the record has been given its release by then, and
    none of them can give it another one. -/
theorem payload_stable {x : Run Index} (hx : Creates k x p) (hu : Reachable u)
    (hc₀ : u.context? k = some c₀) (hexec : x.exec u = (.ok i, u'))
    (ht : Trail u'.ledger since w.ledger) (hc : w.context? k = some c)
    (hcommit : ∀ s ∈ since, ∀ r, s.op ≠ .change k (.commit i r))
    (hv : vacations since k i.slot < 2 ^ 32) :
    ((∀ s ∈ since, ¬ s.op.Tears s.before.ledger k c₀.tree.current) →
        c.Offers i c₀.tree.current p (written since k i)) ∧
      ((∃ s ∈ since, s.op.Tears s.before.ledger k c₀.tree.current) → Stranger k i w c) := by
  obtain ⟨hl, h, hk, hi⟩ := hx.record? hu.sound hc₀ hexec
  have hk' := World.hold_of_context? hc
  constructor
  · intro htears
    obtain ⟨h', hh', hi'⟩ := ht.record?_kept hl hk hi hcommit htears
    rw [hk'] at hh'
    cases hh'
    obtain ⟨f, hf⟩ := (ht.sound hl).shows k c.hold hk'
    exact Context.offers_of_record? (f := f) hf hi'
  · intro htears
    exact stranger hc (ht.gone_of_tears hl hk hi hv htears hk')

/-- A context with a scope that was begun. -/
def World.inScope : World :=
  ((Run.pushScope 0).exec (leftScope.exec .start).2).2

/-- A context with a block in that scope. -/
def World.withBlock : World :=
  ((Run.alloc 0 4).exec .inScope).2

/-- The block after a byte was written to it. -/
def World.writtenBlock : World :=
  ((Run.setByte 0 ⟨0, 4, 0⟩ 1 7).exec .withBlock).2

/-- The scope of the block is torn down, and a text gets the slot of the block. -/
def textForBlock : Run Unit := do
  let _ ← Run.destroyScope 0 ⟨0, 3, 0⟩
  let _ ← Run.pushScope 0
  let record ← Run.reserve 0
  Run.commit 0 record (.forget (.text "text"))

/-- The operations that this is made of, and what is found then. -/
theorem performs_textForBlock : ∃ (s : Step) (rest : List Step) (w : World) (c : Context),
    Performs textForBlock .writtenBlock (s :: rest) (.ok ()) w ∧ s.before = .writtenBlock ∧
      (s :: rest).map (·.op) = [.change 0 (.destroy ⟨0, 3, 0⟩), .change 0 .push, .change 0 .reserve,
        .change 0 (.commit ⟨0, 4, 1⟩ (.forget (.text "text")))] ∧
      w.context? 0 = some c ∧ c.text? ⟨0, 4, 1⟩ = some "text" := by
  have hdestroy : ((Run.destroyScope 0 ⟨0, 3, 0⟩).exec .writtenBlock).1 = .ok true := by
    decide +kernel
  have hpush : ((Run.pushScope 0).exec ((Run.destroyScope 0 ⟨0, 3, 0⟩).exec .writtenBlock).2).1 =
      .ok ⟨0, 3, 1⟩ := by decide +kernel
  have hreserve : ((Run.reserve 0).exec ((Run.pushScope 0).exec
      ((Run.destroyScope 0 ⟨0, 3, 0⟩).exec .writtenBlock).2).2).1 = .ok ⟨0, 4, 1⟩ := by decide +kernel
  have hcommit : ((Run.commit 0 ⟨0, 4, 1⟩ (.forget (.text "text"))).exec ((Run.reserve 0).exec
      ((Run.pushScope 0).exec ((Run.destroyScope 0 ⟨0, 3, 0⟩).exec .writtenBlock).2).2).2).1 =
        .ok () := by decide +kernel
  have htext : ((textForBlock.exec .writtenBlock).2.context? 0).map (·.text? ⟨0, 4, 1⟩) =
      some (some "text") := by decide +kernel
  obtain ⟨steps, w, hrun, hops, hfirst⟩ : ∃ steps w,
      Performs textForBlock .writtenBlock steps (.ok ()) w ∧
        steps.map (·.op) = [.change 0 (.destroy ⟨0, 3, 0⟩), .change 0 .push, .change 0 .reserve,
          .change 0 (.commit ⟨0, 4, 1⟩ (.forget (.text "text")))] ∧
        steps.head?.map (·.before) = some .writtenBlock := by
    refine ⟨_, _, .bind (.of_ok (.change 0 (.destroy ⟨0, 3, 0⟩)) rfl hdestroy)
      (.bind (.of_ok (.change 0 .push) rfl hpush) (.bind (.of_ok (.change 0 .reserve) rfl hreserve)
      (.of_ok (.change 0 (.commit ⟨0, 4, 1⟩ (.forget (.text "text")))) rfl hcommit))), ?_, ?_⟩
    · rfl
    · rfl
  rw [hrun.exec_eq] at htext
  obtain ⟨c, hc, htext⟩ := Option.map_eq_some_iff.1 htext
  obtain ⟨s, rest, rfl, -, -⟩ := List.map_eq_cons_iff.1 hops
  exact ⟨s, rest, w, c, hrun, Option.some.inj hfirst, hops, hc, htext⟩

/-- The theorem above for a block that was written to, and for when a text is where the
    block was. -/
theorem payload_stable_textForBlock : ∃ (c₁ : Context) (w₂ : World) (c₂ : Context),
    c₁.Offers ⟨0, 4, 0⟩ ⟨0, 3, 0⟩ (.block (.zeroed 4)) [(1, 7)] ∧
      Stranger 0 ⟨0, 4, 0⟩ w₂ c₂ ∧ c₂.text? ⟨0, 4, 1⟩ = some "text" := by
  have hpush : ((Run.pushScope 0).exec (leftScope.exec .start).2).1 = .ok ⟨0, 3, 0⟩ := by decide +kernel
  have halloc : (Run.alloc 0 4).exec .inScope = (.ok ⟨0, 4, 0⟩, .withBlock) :=
    Prod.ext (by decide +kernel) rfl
  have hu : Reachable .inScope :=
    reachable_leftScope.performs (.of_ok (.change 0 .push) rfl hpush) (by simp)
  obtain ⟨c₀, hc₀, hcur⟩ : ∃ c₀, World.inScope.context? 0 = some c₀ ∧
      c₀.tree.current = ⟨0, 3, 0⟩ := ⟨_, rfl, rfl⟩
  have hwrite : (Run.setByte 0 ⟨0, 4, 0⟩ 1 7).exec .withBlock = (.ok (some (some 0)), .writtenBlock) :=
    Prod.ext (by decide +kernel) rfl
  obtain ⟨c₁, hc₁⟩ : ∃ c, World.writtenBlock.context? 0 = some c :=
    Option.isSome_iff_exists.1 (by decide +kernel)
  have h₁ := (Performs.op (.change 0 (.write ⟨0, 4, 0⟩ 1 7)) rfl hwrite (by simp)).trail
  -- writing tears nothing down
  have hkept : ¬ (Op.change 0 (.write ⟨0, 4, 0⟩ 1 7)).Tears World.withBlock.ledger 0
      c₀.tree.current := by
    rintro (hnone | ⟨_, _, _, hop, -, hs, -⟩)
    · rw [← (@Trail.split _ _ [] [] _ h₁).2.1, World.hold_of_context? hc₁] at hnone
      cases hnone
    · cases hop
      cases hs
  have hoffers := (payload_stable (.alloc 4) hu hc₀ halloc h₁ hc₁ (by simp)
    (Nat.lt_of_le_of_lt (vacations_le _ 0 4) (by rw [List.length_singleton]; decide))).1
    (by simpa using hkept)
  obtain ⟨s, rest, w₂, c₂, hrun, hbefore, hops, hc₂, htext⟩ := performs_textForBlock
  have htears : s.op.Tears s.before.ledger 0 c₀.tree.current := by
    obtain ⟨f, hf⟩ := (h₁.sound ((Creates.alloc 4).record? hu.sound hc₀ halloc).1).shows 0 c₁.hold
      (World.hold_of_context? hc₁)
    have hs : s.op = .change 0 (.destroy ⟨0, 3, 0⟩) := (List.cons.inj hops).1
    rw [hbefore, ← hcur] at *
    exact .inr ⟨c₁.hold, _, _, hs, World.hold_of_context? hc₁, if_pos hoffers.alive,
      hf.isWithin_self hoffers.alive⟩
  have hcommit : ∀ e ∈ s :: rest, ∀ r, e.op ≠ .change 0 (.commit ⟨0, 4, 0⟩ r) := by
    intro e he r heq
    have hop := List.mem_map_of_mem (f := (·.op)) he
    rw [hops, heq] at hop
    simp at hop
  have hlength : (s :: rest).length = 4 := (List.length_map _).symm.trans (congrArg List.length hops)
  have hstranger := (payload_stable (.alloc 4) hu hc₀ halloc (h₁.append hrun.trail) hc₂
    (List.forall_mem_cons.2 ⟨by simp, hcommit⟩)
    (Nat.lt_of_le_of_lt (vacations_le _ 0 4) (by rw [List.length_append, hlength]; decide))).2
    ⟨s, by simp, htears⟩
  rw [hcur] at hoffers
  exact ⟨c₁, w₂, c₂, hoffers, hstranger, htext⟩

end ScopedResources
