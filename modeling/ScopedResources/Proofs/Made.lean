/-
  Runs that are made of pieces.

  A property of runs is often about runs of a certain kind only, such as those that
  acquire descriptors in certain ways.  Such a kind is given by its pieces; the runs are
  put together from these by going on with a result, by stopping, and by letting a run
  end in whatever way it does.

  * `Made` relates such a run to the marks that its pieces leave, and to the states
    before and after it.  A state is a world, and may say more than that.
  * `Made.exec_eq`: what is made of pieces is what the run does.
  * `Made.keeps`: an invariant of the pieces, which may speak of all the marks so far, is
    one of the run.
-/
import ScopedResources.Proofs.Effect

namespace ScopedResources

/-- From the state `s`, a run that is made of pieces ends with `r` in the state `s'`, and
    its pieces leave the marks `es`. -/
inductive Made {σ τ : Type}
    (Piece : {α : Type} → Run α → σ → List τ → Except Stop α → σ → Prop) :
    {α : Type} → Run α → σ → List τ → Except Stop α → σ → Prop
  | piece {α : Type} {run : Run α} {s s' : σ} {es : List τ} {r : Except Stop α} :
    Piece run s es r s' → Made Piece run s es r s'
  /-- A run that goes on with the result of another. -/
  | bind {α β : Type} {x : Run α} {f : α → Run β} {s s₁ s₂ : σ} {es more : List τ} {a : α}
      {r : Except Stop β} :
    Made Piece x s es (.ok a) s₁ → Made Piece (f a) s₁ more r s₂ →
    Made Piece (x >>= f) s (es ++ more) r s₂
  /-- A run that stops before it can go on. -/
  | stop {α β : Type} {x : Run α} {f : α → Run β} {s s₁ : σ} {es : List τ} {e : Stop} :
    Made Piece x s es (.error e) s₁ → Made Piece (x >>= f) s es (.error e) s₁
  /-- A run that is let end in whatever way it does. -/
  | attempt {α : Type} {x : Run α} {s s₁ : σ} {es : List τ} {r : Except Stop α} :
    Made Piece x s es r s₁ → Made Piece (Run.attempt x) s es (Run.attempted r) s₁

theorem Run.attempted_eq_abort_iff {α : Type} {r : Except Stop α} :
    attempted r = .error .abort ↔ r = .error .abort := by
  rcases r with (f | p | _) | a <;> simp [attempted]

theorem Run.ne_abort_of_ok {α : Type} {r : Except Stop α} {a : α} (h : r = .ok a) :
    r ≠ .error .abort := by
  rw [h]
  simp

theorem Run.map_ne_abort {α β : Type} {f : α → β} {r : Except Stop α} (hr : r ≠ .error .abort) :
    r.map f ≠ .error .abort := by
  intro he
  rcases r with e | a <;> cases he
  exact hr rfl

namespace Made

variable {σ τ α : Type} {Piece : {α : Type} → Run α → σ → List τ → Except Stop α → σ → Prop}
  {run : Run α} {s s' : σ} {es : List τ} {r : Except Stop α}

/-- What is made of pieces is what the run does. -/
theorem exec_eq (see : σ → World)
    (hpiece : ∀ {α : Type} {run : Run α} {s s' : σ} {es : List τ} {r : Except Stop α},
      Piece run s es r s' → run.exec (see s) = (r, see s'))
    (h : Made Piece run s es r s') : run.exec (see s) = (r, see s') := by
  induction h with
  | piece h => exact hpiece h
  | bind _ _ ih ih' => rw [Run.exec_bind_ok ih, ih']
  | stop _ ih => rw [Run.exec_bind_error ih]
  | attempt _ ih => rw [Run.exec_attempt, ih]

/-- An invariant of the pieces is one of the run, if the marks are such, `F`, at any time.  Where
    the process ends, `Ended` takes the place of the invariant. -/
theorem keeps {F : List τ → Prop} (hF : ∀ {es more}, F (es ++ more) → F es)
    (Inv Ended : List τ → σ → Prop)
    (hpiece : ∀ {α : Type} {run : Run α} {s s' : σ} {pre es : List τ} {r : Except Stop α},
      Piece run s es r s' → Inv pre s → F (pre ++ es) →
        (r ≠ .error .abort → Inv (pre ++ es) s') ∧ (r = .error .abort → Ended (pre ++ es) s'))
    (h : Made Piece run s es r s') {pre : List τ} (hs : Inv pre s) (hes : F (pre ++ es)) :
    (r ≠ .error .abort → Inv (pre ++ es) s') ∧ (r = .error .abort → Ended (pre ++ es) s') := by
  induction h generalizing pre with
  | piece h => exact hpiece h hs hes
  | bind _ _ ih ih' =>
    rw [← List.append_assoc] at hes ⊢
    exact ih' ((ih hs (hF hes)).1 (by simp)) hes
  | @stop α β x f s s₁ es e _ ih =>
    obtain ⟨hgoes, hends⟩ := ih hs hes
    exact ⟨fun hr => hgoes fun he => hr (by cases he; rfl), fun hr => hends (by cases hr; rfl)⟩
  | attempt _ ih =>
    obtain ⟨hgoes, hends⟩ := ih hs hes
    exact ⟨fun hr => hgoes (mt Run.attempted_eq_abort_iff.2 hr),
      fun hr => hends (Run.attempted_eq_abort_iff.1 hr)⟩

end Made

end ScopedResources
