/-
  Operations that go back to a scope which they name.

  The teardown of a scope in which it was not current goes to that scope's parent,
  and a protected call goes back to the scope that was current when it began.
  Either may be a scope beside which newer records were reserved since.  Then what
  is reserved next is listed below older records, and is released after them.

  * `Tree.Newest` says that a scope, and each one around it, is the newest child;
    `Tree.Shows.newest_iff`: these are the scopes of the spine.
  * `Change.forward_of_goesOut`: an operation that goes out of the current scope to one
    around it goes to such a scope.
  * `reverse_of_forward`: the order of releases in a run in which all operations do.
-/
import ScopedResources.Proofs.Order

namespace ScopedResources

namespace Tree

variable {t : Tree Release} {w f : Forest Release} {s p : Index} {issued : List Index}

/-- The spine below a scope that is the newest all the way up. -/
theorem Newest.of_spine {q : Option Index} (hp : t.Newest p)
    (hnode : t.nodes.get? p = some (.scope q f.roots)) (hf : f.Held t.nodes.get? (some p))
    (hs : f.Spine s) : t.Newest s := by
  induction f generalizing p q with
  | nil => cases hs
  | record => cases hs
  | scope i below older ih _ =>
    obtain ⟨hi, hbelow, -⟩ := hf
    have hnewest : t.Newest i := .child hnode (isScope_iff.2 ⟨_, _, hi⟩) hp
    rcases hs with rfl | hs
    · exact hnewest
    · exact ih hnewest hi hbelow hs

theorem Shows.newest_iff (h : t.Shows w) : t.Newest s ↔ w.Spine s := by
  constructor
  · intro hs
    exact hs.spine h
  · intro hs
    obtain ⟨f, rfl⟩ := h.root
    obtain ⟨htop, hbelow, -⟩ := h.held
    rcases hs with rfl | hs
    · exact .top
    · exact Newest.top.of_spine htop hbelow hs

/-- The scopes around the current one are the newest, all the way up. -/
theorem InOrder.newest_of_within (h : t.InOrder w issued) (hs : t.isWithin s t.current = true) :
    t.Newest s := by
  rw [h.shows.newest_iff]
  rcases (h.shows.isWithin_iff h.shows.current).1 hs with rfl | ⟨g, hg, hc⟩
  · exact h.spine
  · exact h.spine.of_below h.shows.nodup hg (Forest.mem_indices_of_mem_scopes hc)

/-- What a scope owes does not depend on where the current scope is. -/
theorem owed_enter (t : Tree Release) (p s : Index) : (t.enter p).owed s = t.owed s := by
  funext i
  have hrecord : (t.enter p).record? i = t.record? i := rfl
  simp only [owed, hrecord, isWithin_enter]

end Tree

variable {k : ContextId} {h : Hold} {c : Change} {w : Forest Release} {scope : Index}
  {steps : List Step} {is : List Index}

/-- Whether the scope that a change goes back to is the current one or one around it. -/
def Change.GoesOut : Change → Hold → Prop
  | leave s, h => ∀ p, h.tree.parent? s = some p → h.tree.isWithin p h.tree.current = true
  | exit call _, h => h.tree.isWithin call.resume h.tree.current = true
  | push, _ | pop, _ | destroy _, _ | reserve, _ | commit _ _, _ | write _ _ _, _ | enter _, _ => True

/-- Going out of the current scope leads to a scope with nothing newer beside it. -/
theorem Change.forward_of_goesOut (hc : c.GoesOut h) (ho : h.tree.InOrder w is) : c.Forward h := by
  cases c with
  | leave s =>
    intro p hp
    exact ho.newest_of_within (hc p hp)
  | exit call how =>
    intro _
    exact ho.newest_of_within hc
  | _ => trivial

/-- A change that tears a scope down makes due what the scope owes, in the reverse of
    the order in which the records were reserved. -/
theorem Change.due_eq (hc : c.Forward h) (ho : h.tree.InOrder w is)
    (ht : c.tears h = some scope) : c.due h = (is.filterMap (h.tree.owed scope)).reverse := by
  cases c with
  | destroy s =>
    simp only [tears, Option.ite_none_right_eq_some, Option.some.injEq] at ht
    obtain ⟨-, rfl⟩ := ht
    exact ho.dueOf_eq s
  | leave s =>
    simp only [tears, Option.ite_none_right_eq_some, Option.some.injEq] at ht
    obtain ⟨-, rfl⟩ := ht
    rw [due, Tree.leaving]
    split
    · rename_i p hp
      rw [(ho.enter fun _ => hc p hp).dueOf_eq s, Tree.owed_enter]
    · exact ho.dueOf_eq s
  | exit call how =>
    have hback := (ho.enter hc).dueOf_eq call.boundary
    rw [Tree.owed_enter] at hback
    rcases how with _ | _ | _
    · cases ht
    all_goals
      simp only [tears, Option.ite_none_right_eq_some, Option.some.injEq] at ht
      obtain ⟨-, rfl⟩ := ht
      exact hback
  | _ => cases ht

/-- What a teardown owes has run in turn, after any operation that tears down. -/
theorem inTurn_of_tears {s : Step} (hstep : s.after.ledger = s.op.step s.before.ledger)
    (hl : s.before.ledger.Sound) (hk : s.before.ledger.hold k = some h)
    (hforward : ∀ c, s.op = .change k c → c.Forward h) (ho : h.tree.InOrder w is)
    (hop : (∃ c, s.op = .change k c ∧ c.tears h = some scope) ∨
      s.op = .dropContext k ∧ scope = h.tree.top) :
    ∃ new, s.after.journal.ran = new.reverse ++ s.before.journal.ran ∧
      Ledger.InTurn (is.filterMap (h.tree.owed scope)).reverse new := by
  rcases hop with ⟨c, hop, ht⟩ | hop
  · have hran : s.after.journal.ran = (s.op.step s.before.ledger).ran := congrArg Ledger.ran hstep
    rw [← c.due_eq (hforward c hop) ho ht, hran, hop, Op.step, Ledger.answer_of_hold hk]
    exact Ledger.inTurn_releaseAll Ledger.outlasts_drop _ (s.before.ledger.onHold k c.apply)
  · rw [← ho.dueOf_eq scope]
    exact ran_of_teardown hstep hl hk (.inr hop)

/-- Releases run in the strict reverse of the order in which their records were
    reserved, in every teardown of a run in which the scopes that are gone back to have
    nothing newer beside them. -/
theorem reverse_of_forward {α : Type} {run : Run α} {host : Host} {identity : String}
    {log : Option Log} {r : Except Stop α} {world : World}
    (hrun : Performs run (World.new host identity log) steps r world)
    (hforward : ∀ s ∈ steps, ∀ c h, s.op = .change k c → s.before.ledger.hold k = some h →
      c.Forward h)
    (hv : ∀ n, vacations steps k n < 2 ^ 32) :
    (issued steps k).Nodup ∧ ∀ pre s post, steps = pre ++ s :: post →
      ∀ h scope, s.before.ledger.hold k = some h →
        ((∃ c, s.op = .change k c ∧ c.tears h = some scope) ∨
          s.op = .dropContext k ∧ scope = h.tree.top) →
          RunsInReverse h.tree scope k pre s.before.journal.ran s.after.journal.ran := by
  have hl₀ := sound_new host identity log
  have ho₀ : (World.new host identity log).ledger.Ordered k [] :=
    ⟨fun _ => rfl, fun h hk => by rw [hold_new] at hk; cases hk⟩
  have hnodup := issued_nodup hrun.trail hl₀ hv
  refine ⟨hnodup, ?_⟩
  rintro pre s post rfl h scope hk hop
  obtain ⟨hpre, hstep, -⟩ := hrun.trail.split
  have hl := hpre.sound hl₀
  have hissued : issued (pre ++ s :: post) k = issued pre k ++ issued (s :: post) k :=
    List.filterMap_append
  rw [hissued] at hnodup
  have hordered := hpre.ordered_of_forward hl₀ ho₀
    (fun s' hs' => hforward s' (List.mem_append_left _ hs')) hnodup.of_append_left
  obtain ⟨w, hw⟩ := hordered.tree h hk
  rw [List.nil_append] at hw
  have hs : ∀ c, s.op = .change k c → c.Forward h := fun c hc =>
    hforward s (List.mem_append_right _ (List.mem_cons_self ..)) c h hc hk
  obtain ⟨new, hran, hturn⟩ := inTurn_of_tears hstep hl hk hs hw hop
  have howed := hw.mem_owed_iff scope
  constructor
  · exact ⟨new, hran, hturn⟩
  · intro hdrop
    rw [hran, hturn.eq fun d hd => hdrop d (List.mem_reverse.1 hd), List.reverse_reverse]
  · exact howed
  · intro d hd
    obtain ⟨o, hi, -⟩ := (howed d).1 hd
    have hrel : h.tree.release? d.record = some d.release := by rw [Tree.release?, hi]; rfl
    rcases hpre.committed hl₀ hk hrel with ⟨x, r₀, hx, -⟩ | hcom
    · rw [hold_new] at hx; cases hx
    · exact hcom

/-- A call that returns, with a release that is deferred in it and one after it. -/
def deferredInCall : Run Unit := do
  let k ← Run.newContext "example"
  let _ ← Run.protect k .code (Run.defer k (.note "first" false))
  Run.defer k (.note "second" false)

/-- The theorem above where that context is dropped. -/
theorem reverse_of_forward_deferredInCall : ∃ t pre ran ran',
    RunsInReverse t ⟨0, 0, 0⟩ 0 pre ran ran' ∧ issued pre 0 = [⟨0, 2, 0⟩, ⟨0, 3, 0⟩] ∧
      ran'.map (·.record) = [⟨0, 2, 0⟩, ⟨0, 3, 0⟩] := by
  let call : ProtectedCall := ⟨⟨0, 0, 0⟩, ⟨0, 1, 0⟩, 1, none⟩
  obtain ⟨pre, w, hpre, hops, htop, hissued⟩ : ∃ pre w,
      Performs deferredInCall .start pre (.ok ()) w ∧
      pre.map (·.op) = [.newContext "example", .change 0 (.enter .code), .change 0 .reserve,
        .change 0 (.commit ⟨0, 2, 0⟩ (.note "first" false)), .change 0 (.exit call (.returned ())),
        .change 0 .reserve, .change 0 (.commit ⟨0, 3, 0⟩ (.note "second" false))] ∧
      (pre.all fun s => (s.before.ledger.hold 0).all fun h => h.tree.top == ⟨0, 0, 0⟩) = true ∧
      issued pre 0 = [⟨0, 2, 0⟩, ⟨0, 3, 0⟩] :=
    ⟨_, _, .bind (.of_ok (.newContext "example") rfl rfl)
      (.bind (.bind (.of_ok (a := .ok call) (.change 0 (.enter .code)) rfl rfl)
        (.bind (.attempt (r := .ok ()) (.bind (.of_ok (.change 0 .reserve) rfl rfl)
            (.of_ok (.change 0 (.commit ⟨0, 2, 0⟩ (.note "first" false))) rfl rfl)))
          (.of_ok (.change 0 (.exit call (.returned ())))
            (Run.discard_leaveCall 0 call (.returned ())) rfl)))
      (.bind (.of_ok (a := ⟨0, 3, 0⟩) (.change 0 .reserve) rfl (by decide +kernel))
        (.of_ok (a := ()) (.change 0 (.commit ⟨0, 3, 0⟩ (.note "second" false))) rfl
          (by decide +kernel)))), rfl, by decide +kernel, by decide +kernel⟩
  obtain rfl : w = (deferredInCall.exec .start).2 := by rw [hpre.exec_eq]
  have hok : ((Run.dropContext 0).exec (deferredInCall.exec .start).2).1 = .ok () := by
    decide +kernel
  obtain ⟨w', hexec⟩ := Run.exists_exec_eq hok
  obtain ⟨s, hs⟩ : ∃ s : Step, s = ⟨(deferredInCall.exec .start).2, .dropContext 0, w'⟩ := ⟨_, rfl⟩
  have hop : s.op = .dropContext 0 := by rw [hs]
  have hrun : Performs (deferredInCall >>= fun _ => Run.dropContext 0) .start (pre ++ [s])
      (.ok ()) w' := by
    rw [hs]
    exact hpre.bind (.op _ rfl hexec (by simp))
  have hforward : ∀ s' ∈ pre ++ [s], ∀ c h, s'.op = .change 0 c →
      s'.before.ledger.hold 0 = some h → c.Forward h := by
    intro s' hs' c h hc hk
    rcases List.mem_append.1 hs' with hs' | hs'
    · have hmem := List.mem_map_of_mem (f := (·.op)) hs'
      have hall := List.all_eq_true.1 htop s' hs'
      rw [hk, Option.all_some, beq_iff_eq] at hall
      rw [hops, hc] at hmem
      simp only [List.mem_cons, Op.change.injEq, List.not_mem_nil, reduceCtorEq, false_or,
        true_and, or_false] at hmem
      rcases hmem with rfl | rfl | rfl | rfl | rfl | rfl
      case inr.inr.inr.inl =>
        -- the call goes back to the top scope
        intro _
        rw [show call.resume = h.tree.top from hall.symm]
        exact .top
      all_goals trivial
    · rw [List.mem_singleton.1 hs', hop] at hc
      cases hc
  have hv : ∀ n, vacations (pre ++ [s]) 0 n < 2 ^ 32 := fun n =>
    Nat.lt_of_le_of_lt (vacations_le _ 0 n) (by
      rw [List.length_append, ← List.length_map (·.op), hops, List.length_singleton]; decide)
  obtain ⟨c, hc⟩ := Option.isSome_iff_exists.1
    (show ((deferredInCall.exec .start).2.context? 0).isSome = true by decide +kernel)
  have htop' : ((deferredInCall.exec .start).2.context? 0).map (·.tree.top) = some ⟨0, 0, 0⟩ := by
    decide +kernel
  rw [hc, Option.map_some, Option.some.injEq] at htop'
  have h := (reverse_of_forward hrun hforward hv).2 pre s [] rfl c.hold ⟨0, 0, 0⟩
    (by rw [hs]; exact World.hold_of_context? hc) (.inr ⟨hop, htop'.symm⟩)
  have hran : ((Run.dropContext 0).exec (deferredInCall.exec .start).2).2.journal.ran.map
      (·.record) = [⟨0, 2, 0⟩, ⟨0, 3, 0⟩] := by decide +kernel
  rw [hexec] at hran
  exact ⟨_, pre, _, _, h, hissued, by rw [hs]; exact hran⟩

/-- Two scopes that are left, a release that is deferred beside them, and the inner one
    torn down for its parent. -/
def besideNewer : Run Unit := do
  let k ← Run.newContext "example"
  let _ ← Run.pushScope k
  let inner ← Run.pushScope k
  let _ ← Run.popScope k
  let _ ← Run.popScope k
  Run.defer k (.note "first" false)
  let _ ← Run.leaveScope k inner
  Run.defer k (.note "second" false)
  Run.dropContext k

/-- Where the way back leads to a scope with something newer beside it, what was
    reserved first is released first. -/
theorem outOfOrder_besideNewer : ∃ steps w, Performs besideNewer .start steps (.ok ()) w ∧
    issued steps 0 = [⟨0, 3, 0⟩, ⟨0, 2, 1⟩] ∧
      w.journal.ran.reverse.map (·.record) = [⟨0, 3, 0⟩, ⟨0, 2, 1⟩] := by
  refine ⟨_, _, .bind (.of_ok (.newContext "example") rfl rfl)
    (.bind (.of_ok (.change 0 .push) rfl rfl)
    (.bind (.of_ok (.change 0 .push) rfl rfl)
    (.bind (.of_ok (.change 0 .pop) rfl rfl)
    (.bind (.of_ok (.change 0 .pop) rfl rfl)
    (.bind (.bind (.of_ok (.change 0 .reserve) rfl rfl)
      (.of_ok (.change 0 (.commit ⟨0, 3, 0⟩ (.note "first" false))) rfl rfl))
    (.bind (.of_ok (a := true) (.change 0 (.leave ⟨0, 2, 0⟩)) rfl (by decide +kernel))
    (.bind (.bind (.of_ok (a := ⟨0, 2, 1⟩) (.change 0 .reserve) rfl (by decide +kernel))
      (.of_ok (a := ()) (.change 0 (.commit ⟨0, 2, 1⟩ (.note "second" false))) rfl (by decide +kernel)))
    (.of_ok (a := ()) (.dropContext 0) rfl (by decide +kernel))))))))), ?_, ?_⟩
  · decide +kernel
  · decide +kernel

end ScopedResources
