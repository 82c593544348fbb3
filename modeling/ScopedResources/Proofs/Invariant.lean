/-
  What an operation can do to a tree, and what all operations keep.

  A change leaves the nodes of its tree, adds one, gives a record its release,
  or tears a scope down (`Outcome`); all that holds of every change is proved
  of these cases.

  * `Change.outcome`: every change has one of these outcomes.
  * `Tree.Evolves`: how a tree develops; a node that is alive stays as it is
    until its slot moves on.
  * `Ledger.Sound` is the invariant of all ledgers, `Reachable.links_agree` what
    it says about the links of their trees.
-/
import ScopedResources.Proofs.Performs

namespace ScopedResources

/-- A node apart from its children and its release, which change while it is
    alive. -/
def Node.place {ρ : Type} : Node ρ → Node ρ
  | .scope parent _ => .scope parent []
  | .record owner _ => .record owner none

theorem Node.place_bare {ρ : Type} (node : Node ρ) : node.bare.place = node.place := by
  cases node <;> rfl

theorem add_one_ne (e : UInt32) : e + 1 ≠ e := by
  intro h
  have := congrArg UInt32.toNat h
  rw [UInt32.toNat_add] at this
  have hlt := e.toNat_lt
  simp at this
  omega

namespace Tree

variable {ρ : Type} {t t' t'' u : Tree ρ} {w g : Forest ρ} {i s : Index} {node : Node ρ}

/-- How a tree develops by one operation: no slot moves on by more than one
    generation, and what is in a slot that does not move on stays. -/
structure Evolves (t t' : Tree ρ) : Prop where
  top : t'.top = t.top
  arena : t'.nodes.arena = t.nodes.arena
  generation : ∀ n e, t.nodes.generation? n = some e →
    t'.nodes.generation? n = some e ∨ t'.nodes.generation? n = some (e + 1)
  kept : ∀ i node, t.nodes.get? i = some node →
    t'.nodes.generation? i.slot = some i.generation →
    ∃ node', t'.nodes.get? i = some node' ∧ node'.place = node.place

theorem evolves_of_nodes (ht : t'.top = t.top) (hn : t'.nodes = t.nodes) : Evolves t t' where
  top := ht
  arena := by rw [hn]
  generation n e he := by rw [hn]; exact .inl he
  kept i node hi _ := ⟨node, by rw [hn]; exact hi, rfl⟩

theorem evolves_of_addChild {p : Option Index} {cs : List Index}
    (hc : t.nodes.get? t.current = some (.scope p cs)) (ha : t.addChild node = (some i, u))
    (ht : t'.top = t.top) (hn : t'.nodes = u.nodes) : Evolves t t' := by
  obtain ⟨nodes, hI, hc', rfl⟩ := addChild_some hc ha
  refine ⟨ht, ?_, fun n e he => ?_, fun j node' hj _ => ?_⟩
  · rw [hn, Slots.arena_set, hI.arena]
  · rw [hn, Slots.generation?_set]
    exact .inl (hI.generation n e he)
  · have hji : j ≠ i := by
      intro h
      have := hI.fresh
      rw [← h, hj] at this; cases this
    rw [hn]
    by_cases hjc : j = t.current
    · subst hjc
      rw [hc] at hj; cases hj
      exact ⟨_, Slots.get?_set_self hc', rfl⟩
    · exact ⟨node', by rw [Slots.get?_set_ne _ _ hjc, hI.other j hji, hj], rfl⟩

theorem evolves_of_attach {o : Index} {old new : Option ρ}
    (hr : t.nodes.get? i = some (.record o old)) (ht : t'.top = t.top)
    (hn : t'.nodes = t.nodes.set i (.record o new)) : Evolves t t' := by
  refine ⟨ht, by rw [hn, Slots.arena_set], fun n e he => ?_, fun j node hj _ => ?_⟩
  · rw [hn, Slots.generation?_set]
    exact .inl he
  · rw [hn]
    by_cases hji : j = i
    · subst hji
      rw [hr] at hj; cases hj
      exact ⟨_, Slots.get?_set_self hr, rfl⟩
    · exact ⟨node, by rw [Slots.get?_set_ne _ _ hji, hj], rfl⟩

theorem Torn.evolves {l : List Index} (h : Torn t l t') : Evolves t t' := by
  refine ⟨h.top, h.arena, fun n e he => ?_, fun i node hi hg => ?_⟩
  · rw [h.generation n, he]
    split
    · exact .inr rfl
    · exact .inl rfl
  · have hil : i ∉ l := by
      intro hil
      -- a slot that is vacated has another generation
      rw [h.generation, if_pos (List.mem_map_of_mem hil), Slots.generation?_of_get? hi] at hg
      exact add_one_ne i.generation (Option.some.inj hg)
    have hrest := h.rest i hil
    rw [hi, Option.map_some] at hrest
    obtain ⟨node', hn', hb⟩ := Option.map_eq_some_iff.1 hrest
    exact ⟨node', hn', by rw [← Node.place_bare, hb, Node.place_bare]⟩

/-! ## Outcomes -/

/-- What a change does to a tree: the scope that it tears down, the releases that
    it was given, and those that it makes due. -/
inductive Outcome (t t' : Tree Release) :
    Option Index → List (Due Release) → List (Due Release) → Prop
  /-- No node changes. -/
  | still : t'.nodes = t.nodes → t'.top = t.top → Outcome t t' none [] []
  /-- The current scope gets a child. -/
  | added {i : Index} {node : Node Release} {u : Tree Release} :
    node.BeginsIn t.current → (∀ o r, node = .record o r → r = none) →
    t.addChild node = (some i, u) → t'.nodes = u.nodes → t'.top = t.top →
    Outcome t t' none [] []
  /-- A record gets its release. -/
  | attached {i o : Index} {old : Option Release} {r : Release} :
    t.nodes.get? i = some (.record o old) → t'.nodes = t.nodes.set i (.record o (some r)) →
    t'.top = t.top → Outcome t t' none [⟨i, r⟩] []
  /-- The block that a record owns gets a byte. -/
  | written {i o : Index} {b : Block} {position : Nat} {byte : UInt8} :
    t.nodes.get? i = some (.record o (some (.forget (.block b)))) →
    t'.nodes = t.nodes.set i (.record o (some (.forget (.block (b.set position byte))))) →
    t'.top = t.top → Outcome t t' none [] []
  /-- A release comes too late for its record, and is due at once. -/
  | late {i : Index} {r : Release} :
    (∀ o old, t.nodes.get? i ≠ some (.record o old)) → t'.nodes = t.nodes → t'.top = t.top →
    Outcome t t' none [⟨i, r⟩] [⟨i, r⟩]
  /-- A scope is torn down. -/
  | torn {s : Index} {w g : Forest Release} :
    t.Shows w → w.below? s = some g → t.Torn (t.tornBy s g) t' →
    Outcome t t' (some s) [] g.due

theorem Outcome.evolves {t t' : Tree Release} {torn : Option Index}
    {given due : List (Due Release)} (h : Outcome t t' torn given due)
    (hc : t.isScope t.current = true) : Evolves t t' := by
  obtain ⟨p, cs, hc⟩ := isScope_iff.1 hc
  cases h with
  | still hn ht => exact evolves_of_nodes ht hn
  | added _ _ ha hn ht => exact evolves_of_addChild hc ha ht hn
  | attached hr hn ht => exact evolves_of_attach hr ht hn
  | written hr hn ht => exact evolves_of_attach hr ht hn
  | late _ hn ht => exact evolves_of_nodes ht hn
  | torn _ _ h => exact h.evolves

end Tree

/-- The releases that a change is given. -/
def Change.given : Change → List (Due Release)
  | commit record release => [⟨record, release⟩]
  | push | pop | destroy _ | leave _ | reserve | write _ _ _ | enter _ | exit _ _ => []

/-- The scope that a change tears down, if it is alive. -/
def Change.tears : Change → Hold → Option Index
  | destroy scope, h | leave scope, h => if h.tree.isScope scope then some scope else none
  | exit call (.failed _), h | exit call (.panicked _), h =>
    if h.tree.isScope call.boundary then some call.boundary else none
  | push, _ | pop, _ | reserve, _ | commit _ _, _ | write _ _ _, _ | enter _, _
  | exit _ (.returned _), _ => none

namespace Change

variable {h : Hold} {w : Forest Release} {t : Tree Release}

/-- A teardown after the current scope was changed. -/
theorem outcome_destroy {t₁ : Tree Release} (ht : t.Shows w) (ht₁ : t₁.Shows w)
    (hn : t₁.nodes = t.nodes) (htop : t₁.top = t.top) (s : Index) :
    t.Outcome (t₁.destroy s).2 (if t.isScope s then some s else none) [] (Ledger.dueOf t₁ s) ∧
      ∃ w', (t₁.destroy s).2.Shows w' := by
  unfold Ledger.dueOf
  have hsame : t.isScope s = t₁.isScope s := by
    rw [Tree.isScope, Tree.isScope, Tree.scope?, Tree.scope?, hn]
  rw [hsame]
  rcases hs : t₁.isScope s with _ | _
  · rw [Tree.destroy_of_not_scope hs]
    exact ⟨.still hn htop, w, ht₁⟩
  · obtain ⟨g, hg⟩ := ht₁.exists_below? hs
    obtain ⟨t', w', removed, hrun, hshows, htorn⟩ := ht₁.destroy hg
    rw [hrun]
    refine ⟨.torn ht hg ⟨htorn.top.trans htop, ?_, ?_, ?_, ?_⟩, w', hshows⟩
    · rw [htorn.arena, hn]
    · rw [Tree.tornBy, ← htop]; exact htorn.gone
    · rw [Tree.tornBy, ← htop, ← hn]; exact htorn.rest
    · rw [Tree.tornBy, ← htop, ← hn]; exact htorn.generation

theorem shows_leaving (ht : t.Shows w) (s : Index) :
    (t.leaving s).Shows w ∧ (t.leaving s).nodes = t.nodes ∧ (t.leaving s).top = t.top := by
  unfold Tree.leaving
  split
  · exact ⟨ht.enter _, rfl, rfl⟩
  · exact ⟨ht, rfl, rfl⟩

theorem outcome_push (ht : t.Shows w) {u : Tree Release} {i : Option Index}
    (hp : t.push = (i, u)) : t.Outcome u none [] [] ∧ ∃ w', u.Shows w' := by
  rcases i with _ | i
  · rw [Tree.push_none hp]
    exact ⟨.still rfl rfl, w, ht⟩
  · obtain ⟨hu, htop, -⟩ := ht.push hp
    rcases ha : t.addChild (.scope (some t.current) []) with ⟨_ | j, v⟩
    · simp [Tree.push, ha] at hp
    · simp only [Tree.push, ha, Prod.mk.injEq, Option.some.injEq] at hp
      obtain ⟨-, rfl⟩ := hp
      have hnew : (Node.scope (some t.current) [] : Node Release).BeginsIn t.current := ⟨rfl, rfl⟩
      exact ⟨.added hnew (fun o r h => by cases h) ha rfl htop, _, hu⟩

theorem outcome_reserve (ht : t.Shows w) : t.Outcome t.reserve.2 none [] [] ∧
    ∃ w', t.reserve.2.Shows w' := by
  rcases hr : t.reserve with ⟨_ | i, u⟩
  · rw [Tree.reserve_none hr]
    exact ⟨.still rfl rfl, w, ht⟩
  · obtain ⟨hu, htop, -⟩ := ht.reserve hr
    have hnew : (Node.record t.current none : Node Release).BeginsIn t.current := rfl
    exact ⟨.added hnew (fun o r h => by cases h; rfl) hr rfl htop, _, hu⟩

theorem outcome_commit (ht : t.Shows w) (i : Index) (r : Release) :
    t.Outcome (t.commit i r).2 none [⟨i, r⟩] (if (t.commit i r).1 then [] else [⟨i, r⟩]) ∧
      ∃ w', (t.commit i r).2.Shows w' := by
  by_cases hi : ∃ o old, t.nodes.get? i = some (.record o old)
  · obtain ⟨o, old, hi⟩ := hi
    have hw := ht.commit (r := r) hi
    rw [Tree.commit_of_record hi] at hw ⊢
    exact ⟨.attached hi rfl rfl, _, hw⟩
  · have hi' : ∀ o old, t.nodes.get? i ≠ some (.record o old) := fun o old h => hi ⟨o, old, h⟩
    rw [Tree.commit_of_not_record hi']
    exact ⟨.late hi' rfl rfl, w, ht⟩

theorem outcome_write (ht : t.Shows w) (i : Index) (position : Nat) (byte : UInt8) :
    t.Outcome (t.write i position byte) none [] [] ∧ ∃ w', (t.write i position byte).Shows w' := by
  unfold Tree.write
  split
  · rename_i b hb
    obtain ⟨o, hi⟩ := Tree.release?_eq_some_iff.1 hb
    have hw := ht.commit (r := .forget (.block (b.set position byte))) hi
    rw [Tree.commit_of_record hi] at hw ⊢
    exact ⟨.written hi rfl rfl, _, hw⟩
  · exact ⟨.still rfl rfl, w, ht⟩

/-- Every change has one of the outcomes, and leads to a tree that shows a
    forest again. -/
theorem outcome (ht : h.tree.Shows w) (c : Change) :
    h.tree.Outcome (c.apply h).tree (c.tears h) c.given (c.due h) ∧
      ∃ w', (c.apply h).tree.Shows w' := by
  cases c with
  | push => exact outcome_push ht rfl
  | pop => exact ⟨.still (Tree.nodes_pop _) (Tree.top_pop _), w, ht.pop⟩
  | destroy s => exact outcome_destroy ht ht rfl rfl s
  | leave s =>
    obtain ⟨h₁, hn, htop⟩ := shows_leaving ht s
    exact outcome_destroy ht h₁ hn htop s
  | reserve => exact outcome_reserve ht
  | commit record r => exact outcome_commit ht record r
  | write record position byte => exact outcome_write ht record position byte
  | enter detail =>
    rcases hp : h.tree.push with ⟨_ | b, u⟩
    · simp only [apply, hp]
      exact ⟨.still rfl rfl, w, ht⟩
    · simp only [apply, hp]
      exact outcome_push ht hp
  | exit call how =>
    cases how with
    | returned _ => exact ⟨.still rfl rfl, w, ht.enter _⟩
    | failed _ => exact outcome_destroy ht (ht.enter _) rfl rfl _
    | panicked _ => exact outcome_destroy ht (ht.enter _) rfl rfl _

end Change

/-! ## Ledgers -/

/-- The invariant of ledgers: the contexts that are alive have a number and the
    identity that belongs to it, and their trees show forests. -/
structure Ledger.Sound (l : Ledger) : Prop where
  lt : ∀ k h, l.hold k = some h → k < l.count
  arena : ∀ k h, l.hold k = some h → h.tree.nodes.arena = UInt32.ofNat k
  shows : ∀ k h, l.hold k = some h → ∃ w, h.tree.Shows w

namespace Ledger

variable {l l' : Ledger} {k : ContextId}

theorem Sound.of_outlasts (hl : l.Sound) (h : Outlasts l l') : l'.Sound where
  lt k x hx := by rw [h.count]; exact hl.lt k x (h.hold k x hx)
  arena k x hx := hl.arena k x (h.hold k x hx)
  shows k x hx := hl.shows k x (h.hold k x hx)

theorem Sound.evolves_apply (hl : l.Sound) {h : Hold} (hk : l.hold k = some h) (c : Change) :
    h.tree.Evolves (c.apply h).tree := by
  obtain ⟨w, hw⟩ := hl.shows k h hk
  exact (Change.outcome hw c).1.evolves hw.isScope_current

theorem Sound.onHold (hl : l.Sound) (k : ContextId) (c : Change) : (l.onHold k c.apply).Sound := by
  have hcases : ∀ j x, (l.onHold k c.apply).hold j = some x →
      l.hold j = some x ∨ j = k ∧ ∃ h, l.hold k = some h ∧ x = c.apply h := by
    intro j x hx
    rw [hold_onHold] at hx
    split at hx
    · rename_i hj
      obtain ⟨h, hh, rfl⟩ := Option.map_eq_some_iff.1 hx
      exact .inr ⟨hj, h, hj ▸ hh, rfl⟩
    · exact .inl hx
  refine ⟨fun j x hx => ?_, fun j x hx => ?_, fun j x hx => ?_⟩
  · rcases hcases j x hx with h | ⟨rfl, h, hh, rfl⟩
    · exact hl.lt j x h
    · exact hl.lt j h hh
  · rcases hcases j x hx with h | ⟨rfl, h, hh, rfl⟩
    · exact hl.arena j x h
    · exact (hl.evolves_apply hh c).arena.trans (hl.arena j h hh)
  · rcases hcases j x hx with h | ⟨rfl, h, hh, rfl⟩
    · exact hl.shows j x h
    · obtain ⟨w, hw⟩ := hl.shows j h hh
      exact (Change.outcome hw c).2

/-- Every operation keeps the invariant. -/
theorem Sound.step (hl : l.Sound) (o : Op) : (o.step l).Sound := by
  cases o with
  | newContext program =>
    have hcases : ∀ j x, ((Op.newContext program).step l).hold j = some x →
        l.hold j = some x ∨ j = l.count ∧ x = (Context.new j "").hold := by
      intro j x hx
      simp only [Op.step] at hx
      split at hx
      · rename_i hj; exact .inr ⟨hj, (Option.some.inj hx).symm⟩
      · exact .inl hx
    refine ⟨fun j x hx => ?_, fun j x hx => ?_, fun j x hx => ?_⟩
    · rcases hcases j x hx with h | ⟨rfl, -⟩
      · exact Nat.lt_succ_of_lt (hl.lt j x h)
      · exact Nat.lt_succ_self _
    · rcases hcases j x hx with h | ⟨rfl, rfl⟩
      · exact hl.arena j x h
      · rfl
    · rcases hcases j x hx with h | ⟨rfl, rfl⟩
      · exact hl.shows j x h
      · exact ⟨_, Tree.shows_new _⟩
  | dropContext k => exact hl.of_outlasts (outlasts_drop k l)
  | change k c => exact (hl.onHold k c).of_outlasts (outlasts_releaseAll outlasts_drop _ _)

end Ledger

/-- Operations one after the other keep the invariant. -/
theorem Trail.sound {l l' : Ledger} {steps : List Step} (h : Trail l steps l') (hl : l.Sound) :
    l'.Sound := by
  induction h with
  | nil => exact hl
  | cons hs _ ih => exact ih (by rw [hs]; exact hl.step _)

section

variable (host : Host) (identity : String) (log : Option Log)

theorem hold_new (k : ContextId) : (World.new host identity log).ledger.hold k = none := by
  simp [World.ledger, World.new, World.context?]

theorem sound_new : (World.new host identity log).ledger.Sound := by
  refine ⟨fun k h hk => ?_, fun k h hk => ?_, fun k h hk => ?_⟩
  all_goals rw [hold_new] at hk; cases hk

end

theorem Reachable.sound {w : World} (h : Reachable w) : w.ledger.Sound := by
  obtain ⟨α, run, host, identity, log, steps, r, hp, -⟩ := h
  exact hp.trail.sound (sound_new host identity log)

/-! ## Links -/

/-- In every reachable world, the links of every context's tree agree.  So the
    number of nodes that a context gives is the number of those reached from its
    top scope, a new node finds the scope that it is to lie in, and a teardown
    finds every child that it looks for. -/
theorem Reachable.links_agree {w : World} (hw : Reachable w) {k : ContextId} {c : Context}
    (hc : w.context? k = some c) :
    c.tree.WellFormed ∧
      c.tree.size = c.live + 1 ∧
      c.live = {i | Relation.TransGen c.tree.HasChild c.tree.top i}.ncard ∧
      (∀ node i nodes, c.tree.nodes.insert node = (some i, nodes) →
        ∃ p cs, nodes.get? c.tree.current = some (.scope p cs)) ∧
      ∀ s p cs, c.tree.nodes.get? s = some (.scope p cs) → ∃ result,
        Tree.Walked c.tree.top s (2 * c.tree.size + 1) s (Tree.detach c.tree.nodes p s) [] result := by
  have hk : w.ledger.hold k = some c.hold := World.hold_of_context? hc
  obtain ⟨f, hf⟩ := hw.sound.shows k c.hold hk
  have hf : c.tree.Shows f := hf
  exact ⟨hf.wellFormed, hf.live_eq.1, hf.live_eq.2,
    fun _ _ _ => hf.current_after_insert, fun _ _ _ => hf.exists_walked⟩

/-- A world without contexts. -/
def World.start : World :=
  .new (.new .empty) "" none

/-- A context with a scope that holds a committed record and was left again. -/
def leftScope : Run Unit := do
  let k ← Run.newContext "example"
  let _ ← Run.pushScope k
  let record ← Run.reserve k
  Run.commit k record (.note "release" false)
  let _ ← Run.popScope k

theorem reachable_leftScope : Reachable (leftScope.exec .start).2 := by
  have hcomposed : Composed leftScope :=
    Run.composed_bind (Run.composed_newContext _) fun k =>
      Run.composed_bind (Run.composed_pushScope k) fun _ =>
        Run.composed_bind (Run.composed_reserve k) fun record =>
          Run.composed_bind (Run.composed_commit k record _) fun _ =>
            Run.composed_bind (Run.composed_popScope k) fun _ => Run.composed_pure _
  have hexec : leftScope.exec .start = (.ok (), (leftScope.exec .start).2) := rfl
  obtain ⟨steps, hsteps⟩ := hcomposed _ _ _ hexec (by simp)
  exact ⟨_, _, _, _, _, steps, _, hsteps, by simp⟩

/-- The theorem above where a scope with a record in it was left. -/
theorem links_agree_leftScope :
    ∃ w c, Reachable w ∧ w.context? 0 = some c ∧ c.live = 2 ∧ c.tree.WellFormed := by
  obtain ⟨c, hc⟩ : ∃ c, (leftScope.exec .start).2.context? 0 = some c := ⟨_, rfl⟩
  have hlive : ((leftScope.exec .start).2.context? 0).map (·.live) = some 2 := rfl
  rw [hc] at hlive
  exact ⟨_, c, reachable_leftScope, hc, Option.some.inj hlive,
    (reachable_leftScope.links_agree hc).1⟩

end ScopedResources
