/-
  What lies in a scope, over time.

  A node stays in the scopes that it lies in for as long as it is alive.  So what lies in
  a scope is what was there before and is still alive, and what was registered since while
  a scope within it was current.

  * `Step.below_iff` says so about one operation, and `Trail.below_iff` about many, with
    what they have `Registered`.
  * `Change.goesTo?`: the scope that an operation names to go back to.  Nothing else leads
    into a scope from outside (`Step.stays_outside`, `Trail.stays_outside`).
-/
import ScopedResources.Proofs.Survivors
import ScopedResources.Proofs.Unfolding

namespace ScopedResources

open Relation

variable {l l' : Ledger} {k : ContextId} {h h' : Hold} {i o q n : Index} {s : Step}
  {steps more : List Step} {f : Forest Release}

/-! ## One operation -/

namespace Tree.Shows

variable {t u : Tree Release} {f' : Forest Release} {x : Index}

theorem isWithin_self (ht : t.Shows f) (hn : t.isScope n = true) : t.isWithin n n = true :=
  (ht.isWithin_iff_reaches hn).2 .refl

theorem isWithin_trans (ht : t.Shows f) (hq : t.isScope q = true) (hn : t.isScope n = true)
    (h : t.isWithin o q = true) (h' : t.isWithin q n = true) : t.isWithin o n = true :=
  (ht.isWithin_iff_reaches hn).2
    (((ht.isWithin_iff_reaches hq).1 h).trans ((ht.isWithin_iff_reaches hn).1 h'))

theorem isScope_of_isWithin (ht : t.Shows f) (hn : t.isScope n = true)
    (h : t.isWithin q n = true) : t.isScope q = true := by
  rcases ReflTransGen.cases_head ((ht.isWithin_iff_reaches hn).1 h) with rfl | ⟨_, hc, -⟩
  · exact hn
  · exact hc.isScope

theorem isWithin_parent (ht : t.Shows f) (hn : t.isScope n = true) (hp : t.parent? n = some q) :
    t.isScope q = true ∧ t.isWithin q n = true := by
  obtain ⟨p, cs, hget⟩ := isScope_iff.1 hn
  rw [parent?_of_get? hget] at hp
  subst hp
  have hq := ht.mem_scopes_iff.1 (ht.parent_mem hget)
  exact ⟨hq, (ht.isWithin_iff_parent hn).2
    (.inr ⟨q, parent?_of_get? hget, ht.isWithin_self hq⟩)⟩

theorem isWithin_top (ht : t.Shows f) (hn : t.isScope n = true) : t.isWithin t.top n = true := by
  obtain ⟨p, cs, hget⟩ := isScope_iff.1 hn
  refine (ht.isWithin_iff_reaches hn).2 (ht.wellFormed.reflTransGen_iff.2 ?_)
  exact ht.wellFormed.ascends n (by rw [hget]; rfl)

/-- Two scopes around a scope are one within the other. -/
theorem isWithin_total (ht : t.Shows f) {q : Index} (hx : t.isScope x = true)
    (ho : t.isWithin o x = true) (hq : t.isWithin q x = true) :
    t.isWithin o q = true ∨ t.isWithin q o = true := by
  have hso := ht.isScope_of_isWithin hx ho
  have hsq := ht.isScope_of_isWithin hx hq
  rw [ht.isWithin_iff_reaches hx, ht.wellFormed.reflTransGen_iff] at ho hq
  rw [ht.isWithin_iff_reaches hso, ht.isWithin_iff_reaches hsq, ht.wellFormed.reflTransGen_iff,
    ht.wellFormed.reflTransGen_iff]
  exact (ReflTransGen.total_of_right_unique liesIn_unique ho hq).symm

theorem isWithin_antisymm (ht : t.Shows f) (ho : t.isScope o = true) (hx : t.isScope x = true)
    (hox : t.isWithin o x = true) (hxo : t.isWithin x o = true) : o = x := by
  rw [ht.isWithin_iff_reaches hx] at hox
  rw [ht.isWithin_iff_reaches ho] at hxo
  rcases reflTransGen_iff_eq_or_transGen.1 hox with he | hlt
  · exact he.symm
  · exact absurd (hlt.trans_left hxo) ht.wellFormed.not_below_self

/-- A scope of two trees is within the same scopes in both, if the links up are the same. -/
theorem isWithin_congr (ht : t.Shows f) (hu : u.Shows f')
    (hparent : ∀ m, t.isScope m = true → u.isScope m = true → u.parent? m = t.parent? m)
    (hn : t.isScope x = true) (hn' : u.isScope x = true) :
    u.isWithin o x = true ↔ t.isWithin o x = true := by
  obtain ⟨path, hpath, -⟩ := ht.climb (ht.mem_scopes_iff.2 hn)
  induction hpath with
  | @last x hp =>
    rw [ht.isWithin_iff_parent hn, hu.isWithin_iff_parent hn', hparent x hn hn', hp]
    simp
  | @next x m path hp hc ih =>
    have hp' := (hparent x hn hn').trans hp
    rw [ht.isWithin_iff_parent hn, hu.isWithin_iff_parent hn', hp, hp']
    simp only [Option.some.injEq, exists_eq_left',
      ih (ht.isWithin_parent hn hp).1 (hu.isWithin_parent hn' hp').1]

end Tree.Shows

/-- A scope that stays is within the scopes that it was within, and no others. -/
theorem Step.isWithin_iff (hl : s.before.ledger.Sound)
    (hs : s.after.ledger = s.op.step s.before.ledger) (hk : s.before.ledger.hold k = some h)
    (hk' : s.after.ledger.hold k = some h') (hn : h.tree.isScope n = true)
    (hn' : h'.tree.isScope n = true) : h'.tree.isWithin o n = true ↔ h.tree.isWithin o n = true := by
  obtain ⟨f, hf⟩ := hl.shows k h hk
  obtain ⟨f', hf'⟩ := (hs ▸ hl.step s.op : s.after.ledger.Sound).shows k h' hk'
  -- the way up is the same as before
  refine hf.isWithin_congr hf' (fun m hm hm' => ?_) hn hn'
  obtain ⟨p, cs, hget⟩ := Tree.isScope_iff.1 hm
  obtain ⟨x, cs', hx, hget'⟩ := Step.scope_of_keeps hs hl hk hget ⟨h', hk', by
    obtain ⟨p', cs', hget'⟩ := Tree.isScope_iff.1 hm'
    rw [hget']; rfl⟩
  rw [hk'] at hx; cases hx
  rw [Tree.parent?_of_get? hget, Tree.parent?_of_get? hget']

/-- What a change registers was not there before, and is there after it. -/
theorem Change.alive_of_added? {c : Change} (hf : h.tree.Shows f) (hi : c.added? h = some i) :
    h.tree.nodes.get? i = none ∧ ((c.apply h).tree.nodes.get? i).isSome := by
  have hpushed : h.tree.push.1 = some i →
      h.tree.nodes.get? i = none ∧ (h.tree.push.2.nodes.get? i).isSome := by
    intro hp
    have hpush : h.tree.push = (some i, h.tree.push.2) := Prod.ext hp rfl
    obtain ⟨-, -, -, hnew⟩ := hf.push hpush
    rw [hf.mem_iff, Option.not_isSome_iff_eq_none] at hnew
    exact ⟨hnew, by rw [Tree.get?_push hf.isScope_current hpush]; rfl⟩
  cases c with
  | push => exact hpushed hi
  | enter detail =>
    have hpush : h.tree.push = (some i, h.tree.push.2) := Prod.ext hi rfl
    rw [apply, hpush]
    exact hpushed hi
  | reserve =>
    have hreserve : h.tree.reserve = (some i, h.tree.reserve.2) := Prod.ext hi rfl
    obtain ⟨-, -, -, hnew⟩ := hf.reserve hreserve
    rw [hf.mem_iff, Option.not_isSome_iff_eq_none] at hnew
    have hget := Tree.get?_addChild hf.isScope_current hreserve
    exact ⟨hnew, by rw [apply, hget]; rfl⟩
  | pop | destroy _ | leave _ | commit _ _ | write _ _ _ | exit _ _ => cases hi

/-- What an operation registers was not there before, and is there after it if its
    context is. -/
theorem Step.Adds.alive (hadds : s.Adds k i h) (hl : s.before.ledger.Sound)
    (hs : s.after.ledger = s.op.step s.before.ledger) (hk' : s.after.ledger.hold k = some h') :
    h.tree.nodes.get? i = none ∧ (h'.tree.nodes.get? i).isSome := by
  obtain ⟨c, hop, hk, hi⟩ := hadds
  obtain ⟨f, hf⟩ := hl.shows k h hk
  obtain ⟨hnone, hsome⟩ := Change.alive_of_added? hf hi
  refine ⟨hnone, ?_⟩
  rw [hs, hop] at hk'
  rcases hold_step _ hk' with ⟨hne, -⟩ | ⟨x, c', hx, hc', rfl⟩ | ⟨program, hnew, -⟩
  · exact absurd rfl (hne c)
  · cases hc'
    rw [hk] at hx; cases hx
    exact hsome
  · cases hnew

/-- What lies in a scope after an operation: what lay there before and is still alive, and
    what was registered while a scope within it was current. -/
theorem Step.below_iff (hl : s.before.ledger.Sound)
    (hs : s.after.ledger = s.op.step s.before.ledger) (hk : s.before.ledger.hold k = some h)
    (hk' : s.after.ledger.hold k = some h') :
    TransGen h'.tree.HasChild o i ↔
      (TransGen h.tree.HasChild o i ∧ s.Keeps k i) ∨
        (s.Adds k i h ∧ h.tree.isWithin o h.tree.current = true) := by
  obtain ⟨f, hf⟩ := hl.shows k h hk
  obtain ⟨f', hf'⟩ := (hs ▸ hl.step s.op : s.after.ledger.Sound).shows k h' hk'
  have hkeeps : s.Keeps k i ↔ (h'.tree.nodes.get? i).isSome :=
    ⟨fun ⟨x, hx, hi⟩ => by rw [hk'] at hx; cases hx; exact hi, fun hi => ⟨h', hk', hi⟩⟩
  rw [hf.reaches_iff, hf'.reaches_iff, hkeeps]
  -- a node that lies in a scope of a tree is alive there, and so is that scope
  have hlies : ∀ {t : Tree Release} {f : Forest Release}, t.Shows f → ∀ q, t.LiesIn i q →
      (t.nodes.get? i).isSome ∧ t.isScope q = true := by
    intro t f ht q hq
    obtain ⟨node, hn, hholder⟩ := Option.bind_eq_some_iff.1 hq
    exact ⟨by rw [hn]; rfl, ht.isScope_holder hn hholder⟩
  rcases hn : h.tree.nodes.get? i with _ | node
  · have hdead : ∀ q, ¬ h.tree.LiesIn i q := fun q hq => by
      have halive := (hlies hf q hq).1
      rw [hn] at halive; cases halive
    constructor
    · rintro ⟨q, hq, hin⟩
      obtain ⟨hadds, node, hn', hholder⟩ := Step.adds_of_isSome hl hs hk hk' hn (hlies hf' q hq).1
      have hcur : q = h.tree.current := by
        have hq' : h'.tree.holder? i = some h.tree.current := by
          rw [Tree.holder?, hn', Option.bind_some, hholder]
        exact Option.some.inj (hq.symm.trans hq')
      subst hcur
      exact .inr ⟨hadds, (Step.isWithin_iff hl hs hk hk' hf.isScope_current (hlies hf' _ hq).2).1 hin⟩
    · rintro (⟨⟨q, hq, -⟩, -⟩ | ⟨hadds, hin⟩)
      · exact absurd hq (hdead q)
      · obtain ⟨-, node, hn', hholder⟩ :=
          Step.adds_of_isSome hl hs hk hk' hn (hadds.alive hl hs hk').2
        have hq : h'.tree.LiesIn i h.tree.current := by
          rw [Tree.LiesIn, Tree.holder?, hn', Option.bind_some, hholder]
        exact ⟨_, hq, (Step.isWithin_iff hl hs hk hk' hf.isScope_current (hlies hf' _ hq).2).2 hin⟩
  · have hold : ¬ s.Adds k i h := fun hadds => by
      have hnone := (hadds.alive hl hs hk').1
      rw [hn] at hnone; cases hnone
    rw [or_iff_left (fun hr => hold hr.1)]
    by_cases hi' : (h'.tree.nodes.get? i).isSome
    · obtain ⟨x, node', hx, hn', hplace⟩ := Step.place_of_keeps hs hl hk hn (hkeeps.2 hi')
      rw [hk'] at hx; cases hx
      have hsame : ∀ q, h'.tree.LiesIn i q ↔ h.tree.LiesIn i q := fun q => by
        rw [Tree.LiesIn, Tree.LiesIn, Tree.holder?, Tree.holder?, hn, hn', Option.bind_some,
          Option.bind_some, Node.holder_eq_of_place hplace]
      rw [and_iff_left hi']
      refine exists_congr fun q => ?_
      rw [hsame]
      refine and_congr_right fun hq => Step.isWithin_iff hl hs hk hk' (hlies hf q hq).2 ?_
      exact (hlies hf' q ((hsame q).2 hq)).2
    · rw [iff_false_right (fun hr => hi' hr.2)]
      rintro ⟨q, hq, -⟩
      exact hi' (hlies hf' q hq).1

/-! ## A whole run -/

/-- Whether operations have registered a node in a scope, or in a scope within it, and
    have kept it since. -/
def Registered (steps : List Step) (k : ContextId) (o i : Index) : Prop :=
  ∃ pre s post h, steps = pre ++ s :: post ∧ s.Adds k i h ∧
    h.tree.isWithin o h.tree.current = true ∧ ∀ s' ∈ post, s'.Keeps k i

theorem not_registered_nil : ¬ Registered [] k o i := by
  rintro ⟨pre, s, post, h, hsplit, -⟩
  cases pre <;> cases hsplit

theorem registered_cons : Registered (s :: steps) k o i ↔
    (∃ h, s.Adds k i h ∧ h.tree.isWithin o h.tree.current = true ∧ ∀ s' ∈ steps, s'.Keeps k i) ∨
      Registered steps k o i := by
  constructor
  · rintro ⟨_ | ⟨s', pre⟩, s₁, post, h, hsplit, hadds, hin, hkeeps⟩
    · cases hsplit
      exact .inl ⟨h, hadds, hin, hkeeps⟩
    · cases hsplit
      exact .inr ⟨pre, s₁, post, h, rfl, hadds, hin, hkeeps⟩
  · rintro (⟨h, hadds, hin, hkeeps⟩ | ⟨pre, s₁, post, h, rfl, hadds, hin, hkeeps⟩)
    · exact ⟨[], s, steps, h, rfl, hadds, hin, hkeeps⟩
    · exact ⟨s :: pre, s₁, post, h, rfl, hadds, hin, hkeeps⟩

/-- What lies in a scope in the end: what lay there at first and was kept, and what was
    registered there on the way. -/
theorem Trail.below_iff (ht : Trail l steps l') (hl : l.Sound) (hk : l.hold k = some h)
    (hk' : l'.hold k = some h') :
    TransGen h'.tree.HasChild o i ↔
      (TransGen h.tree.HasChild o i ∧ ∀ s ∈ steps, s.Keeps k i) ∨ Registered steps k o i := by
  induction ht generalizing h with
  | nil =>
    rw [hk] at hk'; cases hk'
    simp [not_registered_nil]
  | @cons s steps l' hs ht ih =>
    obtain ⟨hl', x, hx, -⟩ := ht.hold_after hs hl hk hk'
    rw [ih hl' hx hk', Step.below_iff hl hs hk hx, registered_cons, List.forall_mem_cons, or_and_right,
      and_assoc, or_assoc]
    refine or_congr_right (or_congr_left ⟨fun ⟨⟨hadds, hin⟩, hkeeps⟩ => ⟨h, hadds, hin, hkeeps⟩, ?_⟩)
    rintro ⟨y, hadds, hin, hkeeps⟩
    obtain ⟨_, _, hy, _⟩ := id hadds
    rw [hk] at hy; cases hy
    exact ⟨⟨hadds, hin⟩, hkeeps⟩

/-! ## Staying outside a scope -/

/-- The scope that a change names to go back to. -/
def Change.goesTo? : Change → Hold → Option Index
  | leave s, h => h.tree.parent? s
  | exit call _, _ => some call.resume
  | push, _ | pop, _ | destroy _, _ | reserve, _ | commit _ _, _ | write _ _ _, _ | enter _, _ =>
    none

/-- Whether an operation goes back to a scope within the scope `o`. -/
def Step.Reenters (s : Step) (k : ContextId) (o : Index) : Prop :=
  ∃ c h q, s.op = .change k c ∧ s.before.ledger.hold k = some h ∧ c.goesTo? h = some q ∧
    h.tree.isWithin o q = true

/-- A teardown leaves the current scope for one around it, if at all. -/
theorem Tree.Shows.around_destroy {t : Tree Release} (ht : t.Shows f) (o : Index) :
    t.isWithin (t.destroy o).2.current t.current = true := by
  have hself := ht.isWithin_self ht.isScope_current
  rcases ho : t.scope? o with _ | ⟨parent, cs⟩
  · rw [Tree.destroy, ho]; exact hself
  · have hcur : (t.destroy o).2.current =
        if t.isWithin o t.current then parent.getD t.top else t.current := by
      rw [Tree.destroy, ho]
    rw [hcur]
    split
    · rename_i hin
      cases parent with
      | none => exact ht.isWithin_top ht.isScope_current
      | some p =>
        have hscope : t.isScope o = true := by rw [isScope, ho]; rfl
        have hp : t.parent? o = some p := by rw [parent?, ho]; rfl
        obtain ⟨-, hpo⟩ := ht.isWithin_parent hscope hp
        exact ht.isWithin_trans hscope ht.isScope_current hpo hin
    · exact hself

theorem Tree.current_push (t : Tree Release) :
    t.push.1 = some t.push.2.current ∨ t.push.2.current = t.current := by
  rcases hp : t.push with ⟨_ | i, u⟩
  · exact .inr (congrArg Tree.current (push_none hp))
  · rcases ha : t.addChild (.scope (some t.current) []) with ⟨_ | j, v⟩
    · simp [push, ha] at hp
    · simp only [push, ha, Prod.mk.injEq, Option.some.injEq] at hp
      obtain ⟨rfl, rfl⟩ := hp
      exact .inl rfl

theorem Tree.current_commit (t : Tree Release) (i : Index) (r : Release) :
    (t.commit i r).2.current = t.current := by
  unfold commit
  split <;> rfl

/-- The scope that is current after a change is the one that it registers, or it is around
    the one that was current, or around the one that the change names. -/
theorem Change.current_apply (hf : h.tree.Shows f) (c : Change) :
    c.added? h = some (c.apply h).tree.current ∨
      h.tree.isWithin (c.apply h).tree.current h.tree.current = true ∨
      ∃ p, c.goesTo? h = some p ∧ h.tree.isScope p = true ∧
        h.tree.isWithin (c.apply h).tree.current p = true := by
  have hcur := hf.isScope_current
  have hself := hf.isWithin_self hcur
  have hstays : (c.apply h).tree.current = h.tree.current →
      h.tree.isWithin (c.apply h).tree.current h.tree.current = true := fun he => by rwa [he]
  -- a teardown after the change has gone to the scope `p`
  have hdestroy : ∀ p o, h.tree.isScope p = true →
      h.tree.isWithin ((h.tree.enter p).destroy o).2.current p = true := by
    intro p o hp
    have haround := (hf.enter p).around_destroy o
    rwa [Tree.isWithin_enter, current_enter, if_pos hp] at haround
  have hastray : ∀ p o, h.tree.isScope p = false →
      h.tree.isWithin ((h.tree.enter p).destroy o).2.current h.tree.current = true := by
    intro p o hp
    have haround := (hf.enter p).around_destroy o
    have htop := hf.mem_scopes_iff.1 hf.top_mem
    rw [Tree.isWithin_enter, current_enter, if_neg (by simp [hp])] at haround
    exact hf.isWithin_trans htop hcur haround (hf.isWithin_top hcur)
  cases c with
  | push => exact h.tree.current_push.imp id fun he => .inl (hstays he)
  | enter detail =>
    rcases hp : h.tree.push with ⟨_ | b, u⟩
    · exact .inr (.inl (hstays (by rw [apply, hp])))
    · obtain ⟨-, -, hu, -⟩ := hf.push hp
      exact .inl (by rw [apply, added?, hp, hu])
  | pop =>
    rw [apply, Tree.current_pop]
    rcases hp : h.tree.parent? h.tree.current with _ | p
    · exact .inr (.inl hself)
    · exact .inr (.inl (hf.isWithin_parent hcur hp).2)
  | reserve =>
    refine .inr (.inl (hstays ?_))
    rcases hr : h.tree.reserve with ⟨_ | i, u⟩
    · rw [apply, hr, Tree.reserve_none hr]
    · rw [apply, hr, (hf.reserve hr).2.2.1]
  | destroy o => exact .inr (.inl (hf.around_destroy o))
  | leave o =>
    rw [apply, Tree.leaving, goesTo?]
    rcases hp : h.tree.parent? o with _ | p
    · exact .inr (.inl (hf.around_destroy o))
    · have hscope : h.tree.isScope p = true := by
        obtain ⟨⟨q, cs⟩, hget, rfl⟩ := Option.bind_eq_some_iff.1 hp
        exact hf.mem_scopes_iff.1 (hf.parent_mem (Tree.scope?_eq_some_iff.1 hget))
      exact .inr (.inr ⟨p, rfl, hscope, hdestroy p o hscope⟩)
  | commit i r => exact .inr (.inl (hstays (Tree.current_commit _ i r)))
  | write i position byte =>
    refine .inr (.inl (hstays ?_))
    rw [apply, Tree.write]
    split
    · exact Tree.current_commit _ _ _
    · rfl
  | exit call how =>
    rcases hr : h.tree.isScope call.resume with _ | _
    · refine .inr (.inl ?_)
      cases how with
      | returned _ =>
        rw [apply, current_enter, if_neg (by simp [hr])]
        exact hf.isWithin_top hcur
      | failed _ | panicked _ => exact hastray _ _ hr
    · refine .inr (.inr ⟨call.resume, rfl, hr, ?_⟩)
      cases how with
      | returned _ =>
        rw [apply, current_enter, if_pos hr]
        exact hf.isWithin_self hr
      | failed _ | panicked _ => exact hdestroy _ _ hr

/-- An operation that does not go back into a scope stays outside it. -/
theorem Step.stays_outside (hl : s.before.ledger.Sound)
    (hs : s.after.ledger = s.op.step s.before.ledger) (hk : s.before.ledger.hold k = some h)
    (hk' : s.after.ledger.hold k = some h') (ho : h.tree.isScope o = true)
    (hout : ¬ h.tree.isWithin o h.tree.current = true) (hback : ¬ s.Reenters k o) :
    ¬ h'.tree.isWithin o h'.tree.current = true := by
  obtain ⟨f, hf⟩ := hl.shows k h hk
  obtain ⟨f', hf'⟩ := (hs ▸ hl.step s.op : s.after.ledger.Sound).shows k h' hk'
  have hcur' := hf'.isScope_current
  intro hin
  rw [hs] at hk'
  rcases hold_step s.op hk' with ⟨-, hsame⟩ | ⟨x, c, hx, hop, rfl⟩ | ⟨program, -, hcount, -⟩
  · rw [hk] at hsame; cases hsame
    exact hout hin
  · rw [hk] at hx; cases hx
    rw [← hs] at hk'
    rcases Change.current_apply hf c with hnew | haround | ⟨p, hp, hscope, haround⟩
    · -- a scope that was begun lies in the one that was current
      have hadds : s.Adds k (c.apply h).tree.current h := ⟨c, hop, hk, hnew⟩
      obtain ⟨hnone, hsome⟩ := hadds.alive hl hs hk'
      obtain ⟨-, node, hn, hholder⟩ := Step.adds_of_isSome hl hs hk hk' hnone hsome
      have hbelow : ¬ TransGen (c.apply h).tree.HasChild o (c.apply h).tree.current := by
        rw [Step.below_iff hl hs hk hk']
        rintro (⟨hr, -⟩ | ⟨-, hr⟩)
        · obtain ⟨q, hq, -⟩ := hf.reaches_iff.1 hr
          rw [Tree.LiesIn, Tree.holder?, hnone] at hq; cases hq
        · exact hout hr
      rcases reflTransGen_iff_eq_or_transGen.1 ((hf'.isWithin_iff_reaches hcur').1 hin) with he | hr
      · obtain ⟨p, cs, hget⟩ := Tree.isScope_iff.1 ho
        rw [he, hget] at hnone; cases hnone
      · exact hbelow hr
    · have hscope := hf.isScope_of_isWithin hf.isScope_current haround
      have hin₀ := (Step.isWithin_iff hl hs hk hk' hscope hcur').1 hin
      exact hout (hf.isWithin_trans hscope hf.isScope_current hin₀ haround)
    · have hscope' := hf.isScope_of_isWithin hscope haround
      have hin₀ := (Step.isWithin_iff hl hs hk hk' hscope' hcur').1 hin
      exact hback ⟨c, h, p, hop, hk, hp, hf.isWithin_trans hscope' hscope hin₀ haround⟩
  · exact absurd hcount (Nat.ne_of_lt (hl.lt k h hk))

/-- Operations that do not go back into a scope stay outside it, and register nothing
    there, for as long as it is alive. -/
theorem Trail.stays_outside (ht : Trail l steps l') (hl : l.Sound) (hk : l.hold k = some h)
    (hk' : l'.hold k = some h') (ho : h.tree.isScope o = true)
    (hkeeps : ∀ s ∈ steps, s.Keeps k o) (hout : ¬ h.tree.isWithin o h.tree.current = true)
    (hback : ∀ s ∈ steps, ¬ s.Reenters k o) :
    (¬ h'.tree.isWithin o h'.tree.current = true) ∧
      ∀ s ∈ steps, ∀ i x, s.Adds k i x → ¬ x.tree.isWithin o x.tree.current = true := by
  induction ht generalizing h with
  | nil =>
    rw [hk] at hk'; cases hk'
    exact ⟨hout, by simp⟩
  | @cons s steps l' hs ht ih =>
    obtain ⟨hl', x, hx, -⟩ := ht.hold_after hs hl hk hk'
    rw [List.forall_mem_cons] at hkeeps hback
    have hout' := Step.stays_outside hl hs hk hx ho hout hback.1
    obtain ⟨p, cs, hget⟩ := Tree.isScope_iff.1 ho
    obtain ⟨y, cs', hy, hget'⟩ := Step.scope_of_keeps hs hl hk hget hkeeps.1
    rw [hx] at hy; cases hy
    obtain ⟨hlast, hrest⟩ := ih hl' hx hk' (Tree.isScope_iff.2 ⟨p, cs', hget'⟩) hkeeps.2 hout' hback.2
    refine ⟨hlast, List.forall_mem_cons.2 ⟨?_, hrest⟩⟩
    rintro i y ⟨_, _, hy, _⟩
    rw [hk] at hy; cases hy
    exact hout

end ScopedResources
