/-
  A body in a scope of its own.

  The body may begin and leave scopes as it likes, its own one included, and it ends
  wherever it does.  If it returns, its scope is torn down as it is by then, and the scope
  that was current before is current again.  If it fails or panics, nothing is done: its
  scope is left to the protected call around it.

  * `Run.pushed`: what is known of a scope when it has been begun.
  * `Enclosed` is what there is after a body that returned, and `withScope_ends` proves
    it for arbitrary bodies.
-/
import ScopedResources.Proofs.ProtectedCall

namespace ScopedResources

variable {α : Type} {w w₁ w₂ w' : World} {k : ContextId} {c c₂ c' : Context} {s : Index}
  {body : Run α} {r : Except Stop α} {steps : List Step}

/-- The scope that was begun is current, and it lies in the one that was current before. -/
theorem Run.pushed (hw : Reachable w) (hc : w.context? k = some c)
    (hpush : (pushScope k).exec w = (.ok s, w₁)) :
    w₁.ledger.Sound ∧ ∃ h, w₁.ledger.hold k = some h ∧ h.tree.top = c.tree.top ∧
      h.tree.current = s ∧ h.tree.nodes.get? s = some (.scope (some c.tree.current) []) := by
  have hk : w.ledger.hold k = some c.hold := World.hold_of_context? hc
  obtain ⟨f, hf⟩ := hw.sound.shows k _ hk
  have hp : c.tree.push = (some s, c.tree.push.2) := Prod.ext (exec_pushScope_ok hc hpush) rfl
  have hl : w₁.ledger = (Op.change k .push).step w.ledger := step_of_change .push rfl hpush (by simp)
  refine ⟨hl ▸ hw.sound.step _, Change.push.apply c.hold, ?_, ?_⟩
  · have hstep : (Op.change k .push).step w.ledger = w.ledger.onHold k Change.push.apply := rfl
    rw [hl, hstep, Ledger.hold_onHold, if_pos rfl, hk, Option.map_some]
  · obtain ⟨-, htop, hcurrent, -⟩ := Tree.Shows.push hf hp
    exact ⟨htop, hcurrent, Tree.get?_push (Tree.Shows.isScope_current hf) hp⟩

/-- What there is after a body that returned: `c` is the context before the scope `s` was
    begun, `c₂` when the body has returned, and `c'` in the end. -/
structure Enclosed (s : Index) (c c₂ c' : Context) (ran ran' : List (Due Release)) : Prop where
  current : c'.tree.current = c.tree.current
  top : c'.tree.top = c.tree.top
  frame : c'.frame = c₂.frame
  /-- The scope is torn down as the body has left it, and nothing else is. -/
  unwound : c₂.Unwound c' s ran ran'

/-- Leaving a scope for its parent and tearing it down. -/
theorem Enclosed.of_leave {f : Forest Release} (hf : c₂.tree.Shows f) {cs : List Index}
    (hs : c₂.tree.nodes.get? s = some (.scope (some c.tree.current) cs))
    (htop : c₂.tree.top = c.tree.top) (hc₂ : w₂.context? k = some c₂)
    (hc' : w'.context? k = some c')
    (hstep : w'.ledger = (Op.change k (.leave s)).step w₂.ledger) :
    Enclosed s c c₂ c' w₂.journal.ran w'.journal.ran := by
  obtain ⟨hold, new, hran, hturn⟩ := hold_change hc₂ hc' hstep
  have hleaving : c₂.hold.tree.leaving s = c₂.tree.enter c.tree.current := by
    have hparent : c₂.hold.tree.parent? s = some c.tree.current := Tree.parent?_of_get? hs
    rw [Tree.leaving, hparent]
    rfl
  obtain ⟨g, hg, hdue, htop', hcurrent, hget⟩ := Tree.destroy_enter hf hs
  have htree : c'.tree = ((c₂.tree.enter c.tree.current).destroy s).2 := by
    rw [← hleaving]
    exact congrArg Hold.tree hold
  rw [← htree] at htop' hcurrent hget
  rw [Change.due, hleaving, hdue] at hturn
  exact ⟨hcurrent, htop'.trans htop, congrArg Hold.frame hold, f, g, new, hf, hg, hget, hran, hturn⟩

/-- A body in a scope of its own, whatever it does in there.  If it fails or panics, the
    world is as it has left it.  If it returns and its scope is still alive, that scope is
    torn down with what is below it, unless a release ends the process, and the scope that
    was current before is current again. -/
theorem withScope_ends (hw : Reachable w) (hc : w.context? k = some c)
    (hpush : (Run.pushScope k).exec w = (.ok s, w₁)) (hbody : Performs body w₁ steps r w₂) :
    (∀ e, r = .error e → (Run.withScope k body).exec w = (.error e, w₂)) ∧
      ((∀ st ∈ steps, st.Keeps k s) → ∃ c₂, w₂.context? k = some c₂ ∧
        c₂.tree.parent? s = some c.tree.current ∧
        ∀ a, r = .ok a → ∃ result w', (Run.withScope k body).exec w = (result, w') ∧
          (result = .error .abort ∨ result = .ok a ∧ ∀ c', w'.context? k = some c' →
            Enclosed s c c₂ c' w₂.journal.ran w'.journal.ran)) := by
  obtain ⟨hsound₁, h₁, hk₁, htop₁, -, hs₁⟩ := Run.pushed hw hc hpush
  have hbegun : (Run.withScope k body).exec w =
      (do let value ← body; let _ ← Run.leaveScope k s; return value : Run α).exec w₁ :=
    Run.exec_bind_ok hpush
  rw [hbegun]
  refine ⟨?_, fun hkeeps => ?_⟩
  · rintro e rfl
    exact Run.exec_bind_error hbody.exec_eq
  -- the scope is still where it was begun
  obtain ⟨h₂, cs, hk₂, hs₂⟩ := hbody.trail.scope_of_keeps hsound₁ hk₁ hs₁ hkeeps
  obtain ⟨c₂, hc₂, rfl⟩ := Option.map_eq_some_iff.1 hk₂
  obtain ⟨f, hf⟩ := (hbody.trail.sound hsound₁).shows k _ hk₂
  have htop : c₂.tree.top = c.tree.top := (top_trail hbody.trail hsound₁ hk₁ hk₂).trans htop₁
  refine ⟨c₂, hc₂, Tree.parent?_of_get? hs₂, ?_⟩
  rintro a rfl
  rw [Run.exec_bind_ok hbody.exec_eq]
  rcases Run.settles_leaveScope k s w₂ with habort | ⟨⟨destroyed, hleft⟩, hstep⟩
  · obtain ⟨w', hw'⟩ := Run.exists_exec_eq habort
    exact ⟨_, w', Run.exec_bind_error hw', .inl rfl⟩
  · obtain ⟨w', hw'⟩ := Run.exists_exec_eq hleft
    rw [hw'] at hstep
    exact ⟨_, w', Run.exec_bind_ok hw', .inr ⟨rfl, fun c' hc' =>
      .of_leave hf hs₂ htop hc₂ hc' hstep⟩⟩

/-- A body that defers a release, leaves its scope and begins another one beside it. -/
def strayed : Run Unit := do
  Run.defer 0 (.note "release" false)
  let _ ← Run.popScope 0
  let _ ← Run.pushScope 0

theorem performs_strayed : ∃ w₁ steps w₂,
    (Run.pushScope 0).exec (leftScope.exec .start).2 = (.ok ⟨0, 3, 0⟩, w₁) ∧
      Performs strayed w₁ steps (.ok ()) w₂ ∧ ∀ st ∈ steps, st.Keeps 0 ⟨0, 3, 0⟩ := by
  obtain ⟨w, hw⟩ : ∃ w, w = (leftScope.exec .start).2 := ⟨_, rfl⟩
  obtain ⟨w₁, hw₁⟩ : ∃ w₁, w₁ = ((Run.pushScope 0).exec w).2 := ⟨_, rfl⟩
  obtain ⟨w₂, hw₂⟩ : ∃ w₂, w₂ = ((Run.defer 0 (.note "release" false)).exec w₁).2 := ⟨_, rfl⟩
  have hpush : (Run.pushScope 0).exec w = (.ok ⟨0, 3, 0⟩, w₁) := by subst hw hw₁; rfl
  have hreserve : ((Run.reserve 0).exec w₁).1 = .ok ⟨0, 4, 0⟩ := by subst hw hw₁; decide +kernel
  have hcommit : ((Run.commit 0 ⟨0, 4, 0⟩ (.note "release" false)).exec
      ((Run.reserve 0).exec w₁).2) = (.ok (), w₂) := by subst hw hw₁ hw₂; rfl
  have hpop : ((Run.popScope 0).exec w₂).1 = .ok ⟨0, 3, 0⟩ := by subst hw hw₁ hw₂; decide +kernel
  have hnext : ((Run.pushScope 0).exec ((Run.popScope 0).exec w₂).2).1 = .ok ⟨0, 5, 0⟩ := by
    subst hw hw₁ hw₂; decide +kernel
  refine ⟨w₁, _, _, hw ▸ hpush, .bind (.bind (.of_ok (.change 0 .reserve) rfl hreserve)
    (.op (.change 0 (.commit ⟨0, 4, 0⟩ (.note "release" false))) rfl hcommit (by simp)))
    (.bind (.of_ok (.change 0 .pop) rfl hpop) (.bind (.of_ok (.change 0 .push) rfl hnext)
      (.aside rfl rfl))), ?_⟩
  subst hw hw₁ hw₂
  decide +kernel

/-- The theorem above for that body. -/
theorem withScope_ends_strayed : ∃ c c₂ c' ran ran', Enclosed ⟨0, 3, 0⟩ c c₂ c' ran ran' ∧
    c₂.tree.parent? ⟨0, 3, 0⟩ = some c.tree.current ∧ ran'.length = 1 := by
  obtain ⟨w, hw⟩ : ∃ w, w = (leftScope.exec .start).2 := ⟨_, rfl⟩
  obtain ⟨w₁, steps, w₂, hpush, hbody, hkeeps⟩ := performs_strayed
  rw [← hw] at hpush
  obtain ⟨c, hc⟩ := Option.isSome_iff_exists.1 (show (w.context? 0).isSome = true by subst hw; rfl)
  obtain ⟨-, hends⟩ := withScope_ends (hw ▸ reachable_leftScope) hc hpush hbody
  obtain ⟨c₂, hc₂, hparent, hends⟩ := hends hkeeps
  obtain ⟨result, w', hexec, hends⟩ := hends () rfl
  have hresult : ((Run.withScope 0 strayed).exec w).1 = .ok () := by subst hw; decide +kernel
  have hlive : (((Run.withScope 0 strayed).exec w).2.context? 0).isSome = true := by
    subst hw; decide +kernel
  have hran : ((Run.withScope 0 strayed).exec w).2.journal.ran.length = 1 := by
    subst hw; decide +kernel
  rw [hexec] at hresult hlive hran
  obtain ⟨c', hc'⟩ := Option.isSome_iff_exists.1 hlive
  obtain ⟨-, henclosed⟩ := hends.resolve_left fun h => by rw [h] at hresult; cases hresult
  exact ⟨c, c₂, c', _, _, henclosed c' hc', hparent, hran⟩

end ScopedResources
