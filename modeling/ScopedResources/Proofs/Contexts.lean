/-
  What an operation does to each context.

  An operation replaces what its own context owns and puts back the names that were
  saved there.  Every other context stays as it is, or is gone.

  * `Op.Finds`: the context that an operation changes is alive.
  * `Op.context?_of_other`: a context that an operation does not change.
  * `Change.context?_of_own`: the context that it changes.
-/
import ScopedResources.Proofs.Undoing
import ScopedResources.Proofs.Persistence

namespace ScopedResources

/-- Whether the context that an operation changes is alive.  A context that was dropped
    cannot be asked for anything. -/
def Op.Finds (o : Op) (w : World) : Prop :=
  ∀ k c, o = .change k c → (w.context? k).isSome

theorem Op.finds_change {w : World} {k : ContextId} (h : (w.context? k).isSome) (ch : Change) :
    (Op.change k ch).Finds w := by
  rintro _ _ ⟨⟩
  exact h

variable {w w' : World} {k : ContextId} {c c' : Context} {r : Except Stop Unit}

theorem World.ledger_congr (hc : w'.contexts = w.contexts) (hr : w'.journal.ran = w.journal.ran) :
    w'.ledger = w.ledger := by
  unfold ledger context?
  rw [hc, hr]

theorem Context.eq_of_hold (hh : c.hold = c'.hold) (hp : c.program = c'.program) : c = c' := by
  cases c; cases c'
  cases hh
  cases hp
  rfl

theorem World.context?_of_hold {h : Hold} (hk : w.ledger.hold k = some h) :
    ∃ c, w.context? k = some c ∧ c.hold = h :=
  Option.map_eq_some_iff.1 hk

theorem World.context?_push (w : World) (c : Context) (k : ContextId) (hk : k ≠ w.contexts.size) :
    { w with contexts := w.contexts.push (some c) }.context? k = w.context? k := by
  rw [context?, context?, Array.getElem?_push, if_neg hk]

theorem World.context?_newContext (w : World) (program : String) :
    ((Run.newContext program).exec w).2.context? w.contexts.size =
      some (Context.new w.contexts.size program) := by
  show (w.contexts.push (some (Context.new w.contexts.size program)))[w.contexts.size]?.join = _
  rw [Array.getElem?_push_size]
  rfl

theorem Op.ledger_of_exec (o : Op) (hexec : o.run.exec w = (r, w')) (hr : r ≠ .error .abort) :
    w'.ledger = o.step w.ledger := by
  rcases o.moves w with habort | hl
  · rw [hexec] at habort; exact absurd habort hr
  · rw [hexec] at hl; exact hl

/-- A context that an operation does not change stays as it is, if it stays. -/
theorem Op.context?_of_other {o : Op} (hfinds : o.Finds w) (hexec : o.run.exec w = (r, w'))
    (hr : r ≠ .error .abort) (hother : ∀ change, o ≠ .change k change) (hk : k < w.contexts.size)
    (hc' : w'.context? k = some c') : w.context? k = some c' := by
  have hprogram : ∃ c, w.context? k = some c ∧ c'.program = c.program := by
    cases o with
    | newContext program =>
      rw [Op.run, Run.exec_discard] at hexec
      cases hexec
      exact ⟨c', (World.context?_push w _ k (Nat.ne_of_lt hk)).symm.trans hc', rfl⟩
    | dropContext j =>
      rw [Op.run, Run.exec_discard] at hexec
      cases hexec
      rcases Run.undoes_dropContext k j w with habort | ⟨-, new, hn⟩
      · rw [habort] at hr; exact absurd rfl hr
      · obtain ⟨c, hc, hp⟩ := hn.program k c' hc'
        exact ⟨c, hc, by rw [hp]; split <;> rfl⟩
    | change j change =>
      obtain ⟨b, hb⟩ := Option.isSome_iff_exists.1 (hfinds j change rfl)
      obtain ⟨new, hn⟩ := change.released hb hexec hr
      obtain ⟨c, hc, hp⟩ := hn.program k c' hc'
      exact ⟨c, hc, by rw [hp, if_neg fun hj : k = j => hother change (by rw [hj])]⟩
  have hhold : (o.step w.ledger).hold k = some c'.hold := by
    rw [← o.ledger_of_exec hexec hr]; exact World.hold_of_context? hc'
  obtain ⟨c, hc, hp⟩ := hprogram
  rcases hold_step o hhold with ⟨-, h⟩ | ⟨_, change, -, ho, -⟩ | ⟨_, -, hcount, -⟩
  · rw [World.hold_of_context? hc] at h
    rw [hc, Context.eq_of_hold (Option.some.inj h).symm hp]
  · exact absurd ho (hother change)
  · exact absurd hcount (Nat.ne_of_lt hk)

/-- The context that a change is made in, if it stays. -/
theorem Change.context?_of_own (change : Change) (hc : w.context? k = some c)
    (hexec : (change.run k).exec w = (r, w')) (hr : r ≠ .error .abort)
    (hc' : w'.context? k = some c') :
    c'.hold = change.apply c.hold ∧
      c'.program = (restored (change.due c.hold)).getLastD c.program := by
  have hhold := World.hold_of_context? hc
  constructor
  · have hk : ((Op.change k change).step w.ledger).hold k = some c'.hold := by
      rw [← (Op.change k change).ledger_of_exec hexec hr]; exact World.hold_of_context? hc'
    rcases hold_step _ hk with ⟨hne, -⟩ | ⟨h, ch, hh, ho, he⟩ | ⟨_, ho, -⟩
    · exact absurd rfl (hne change)
    · cases ho
      rw [hhold] at hh
      cases hh
      exact he
    · cases ho
  · obtain ⟨new, hn⟩ := change.released hc hexec hr
    obtain ⟨c₀, hc₀, hp⟩ := hn.program k c' hc'
    rw [hc] at hc₀
    cases hc₀
    rw [hp, if_pos rfl]

end ScopedResources
