/-
  Nodes over time.

  An index names one node.  It would name another only after its slot had been
  vacated so often that its generation comes round again, so below that number
  an index that is alive was alive all along, with the same node.

  * `Step.vacates`, `vacations`: how often a slot is vacated.
  * `hold_step`: where what a context owns comes from, by one operation;
    `hold_change`: what a change leaves of its context.
  * `generation_trail`: the generation of a slot counts how often it was
    vacated, up to wrapping around.
  * `alive_trail`: what is alive before and after was alive in between.
  * `issued_nodup`: no record is reserved twice.
-/
import ScopedResources.Proofs.Invariant

namespace ScopedResources

/-- Whether an operation vacates a slot of a context, which then moves on to its
    next generation.  No operation vacates a slot twice. -/
def Step.vacates (s : Step) (k : ContextId) (n : UInt32) : Bool :=
  match s.before.ledger.hold k, s.after.ledger.hold k with
  | some h, some h' =>
    (h.tree.nodes.generation? n).isSome && h'.tree.nodes.generation? n != h.tree.nodes.generation? n
  | _, _ => false

/-- How often operations vacate a slot of a context. -/
def vacations (steps : List Step) (k : ContextId) (n : UInt32) : Nat :=
  steps.countP (·.vacates k n)

/-- Whether a node of a context is alive after an operation. -/
def Step.Keeps (s : Step) (k : ContextId) (i : Index) : Prop :=
  ∃ h, s.after.ledger.hold k = some h ∧ (h.tree.nodes.get? i).isSome

instance (s : Step) (k : ContextId) (i : Index) : Decidable (s.Keeps k i) :=
  decidable_of_iff ((s.after.ledger.hold k).any fun h => (h.tree.nodes.get? i).isSome)
    (Option.any_eq_true _ _)

variable {l l' : Ledger} {k : ContextId} {h h' : Hold} {i : Index} {n : UInt32}
  {steps more : List Step} {node : Node Release}

theorem vacations_append (steps more : List Step) (k : ContextId) (n : UInt32) :
    vacations (steps ++ more) k n = vacations steps k n + vacations more k n :=
  List.countP_append

theorem vacations_cons (s : Step) (steps : List Step) (k : ContextId) (n : UInt32) :
    vacations (s :: steps) k n = vacations steps k n + if s.vacates k n then 1 else 0 :=
  List.countP_cons

theorem vacations_le (steps : List Step) (k : ContextId) (n : UInt32) :
    vacations steps k n ≤ steps.length :=
  List.countP_le_length

/-! ## One operation -/

/-- What a context owns after an operation: what it owned before, or that after
    the change that was made in it, or nothing yet. -/
theorem hold_step (o : Op) (hk : (o.step l).hold k = some h') :
    (∀ c, o ≠ .change k c) ∧ l.hold k = some h' ∨
      (∃ h c, l.hold k = some h ∧ o = .change k c ∧ h' = c.apply h) ∨
      ∃ program, o = .newContext program ∧ k = l.count ∧ h' = (Context.new k "").hold := by
  cases o with
  | newContext program =>
    simp only [Op.step] at hk
    split at hk
    · rename_i hj; exact .inr (.inr ⟨program, rfl, hj, (Option.some.inj hk).symm⟩)
    · exact .inl ⟨(fun c h => by cases h), hk⟩
  | dropContext j =>
    exact .inl ⟨(fun c h => by cases h), (Ledger.outlasts_drop j l).hold k h' hk⟩
  | change j c =>
    have hk₁ := (Ledger.outlasts_releaseAll Ledger.outlasts_drop _ (l.onHold j c.apply)).hold k h' hk
    rw [Ledger.hold_onHold] at hk₁
    split at hk₁
    · rename_i hj
      subst hj
      obtain ⟨h, hh, rfl⟩ := Option.map_eq_some_iff.1 hk₁
      exact .inr (.inl ⟨h, c, hh, rfl, rfl⟩)
    · rename_i hj
      exact .inl ⟨(fun c h => by cases h; exact hj rfl), hk₁⟩

theorem ledger_change {w w' : World} {c : Context} {change : Change} (hc : w.context? k = some c)
    (hstep : w'.ledger = (Op.change k change).step w.ledger) :
    w'.ledger = .releaseAll .drop (change.due c.hold) (w.ledger.onHold k change.apply) := by
  rw [hstep, Op.step, Ledger.answer_of_hold (World.hold_of_context? hc)]

/-- What has run when a change was made in a context. -/
theorem ran_change {w w' : World} {c : Context} {change : Change} (hc : w.context? k = some c)
    (hstep : w'.ledger = (Op.change k change).step w.ledger) :
    ∃ new, w'.journal.ran = new.reverse ++ w.journal.ran ∧
      Ledger.InTurn (change.due c.hold) new := by
  obtain ⟨new, hn, hi⟩ := Ledger.inTurn_releaseAll Ledger.outlasts_drop
    (change.due c.hold) (w.ledger.onHold k change.apply)
  exact ⟨new, (congrArg Ledger.ran (ledger_change hc hstep)).trans hn, hi⟩

/-- What a change leaves of its context, and what has run. -/
theorem hold_change {w w' : World} {c c' : Context} {change : Change} (hc : w.context? k = some c)
    (hc' : w'.context? k = some c') (hstep : w'.ledger = (Op.change k change).step w.ledger) :
    c'.hold = change.apply c.hold ∧
      ∃ new, w'.journal.ran = new.reverse ++ w.journal.ran ∧
        Ledger.InTurn (change.due c.hold) new := by
  refine ⟨?_, ran_change hc hstep⟩
  have hk : w.ledger.hold k = some c.hold := World.hold_of_context? hc
  have hk' : w'.ledger.hold k = some c'.hold := World.hold_of_context? hc'
  rw [ledger_change hc hstep] at hk'
  have hk' := (Ledger.outlasts_releaseAll Ledger.outlasts_drop _ _).hold k _ hk'
  rw [Ledger.hold_onHold, if_pos rfl, hk] at hk'
  exact (Option.some.inj hk').symm

theorem count_step (o : Op) : l.count ≤ (o.step l).count := by
  cases o with
  | newContext program => exact Nat.le_succ _
  | dropContext j => exact (Ledger.outlasts_drop j l).count.ge
  | change j c =>
    exact (Ledger.outlasts_releaseAll Ledger.outlasts_drop _ (l.onHold j c.apply)).count.ge

/-- A context that is gone does not come back. -/
theorem hold_of_hold_step (o : Op) (hlt : k < l.count) (hk : (o.step l).hold k = some h') :
    ∃ h, l.hold k = some h := by
  rcases hold_step o hk with ⟨-, h⟩ | ⟨h, c, h₁, -⟩ | ⟨program, -, h, -⟩
  · exact ⟨_, h⟩
  · exact ⟨_, h₁⟩
  · exact absurd h (Nat.ne_of_lt hlt)

theorem Ledger.Sound.evolves_step (hl : l.Sound) (o : Op) (hk : l.hold k = some h)
    (hk' : (o.step l).hold k = some h') : h.tree.Evolves h'.tree := by
  rcases hold_step o hk' with ⟨-, h₁⟩ | ⟨h₀, c, h₁, -, rfl⟩ | ⟨program, -, h₁, -⟩
  · rw [hk] at h₁; cases h₁
    exact Tree.evolves_of_nodes rfl rfl
  · rw [hk] at h₁; cases h₁
    exact hl.evolves_apply hk c
  · exact absurd h₁ (Nat.ne_of_lt (hl.lt k h hk))

/-! ## Operations one after the other -/

theorem Trail.hold_of_hold (ht : Trail l steps l') (hlt : k < l.count)
    (hk : l'.hold k = some h') : ∃ h, l.hold k = some h := by
  induction ht with
  | nil => exact ⟨h', hk⟩
  | @cons s steps l' hs _ ih =>
    rw [hs] at ih
    obtain ⟨h, hh⟩ := ih (Nat.lt_of_lt_of_le hlt (count_step _)) hk
    exact hold_of_hold_step s.op hlt hh

theorem Trail.count_le (ht : Trail l steps l') : l.count ≤ l'.count := by
  induction ht with
  | nil => exact Nat.le_refl _
  | cons hs _ ih => exact (hs ▸ count_step _).trans ih

/-- A context that is alive at the end was alive before. -/
theorem Trail.context? {w w' : World} {c' : Context} (ht : Trail w.ledger steps w'.ledger)
    (hlt : k < w.ledger.count) (hc' : w'.context? k = some c') : ∃ c, w.context? k = some c := by
  obtain ⟨x, hx⟩ := ht.hold_of_hold hlt (World.hold_of_context? hc')
  obtain ⟨c, hc, -⟩ := Option.map_eq_some_iff.1 hx
  exact ⟨c, hc⟩

/-- A context that is alive before an operation and at the end was alive after the
    operation. -/
theorem Trail.hold_after {s : Step} (ht : Trail s.after.ledger steps l')
    (hs : s.after.ledger = s.op.step s.before.ledger) (hl : s.before.ledger.Sound)
    (hk : s.before.ledger.hold k = some h) (hk' : l'.hold k = some h') :
    s.after.ledger.Sound ∧ ∃ x, s.after.ledger.hold k = some x ∧ h.tree.Evolves x.tree := by
  have hlt : k < s.after.ledger.count := by
    rw [hs]; exact Nat.lt_of_lt_of_le (hl.lt k h hk) (count_step _)
  obtain ⟨x, hx⟩ := ht.hold_of_hold hlt hk'
  exact ⟨by rw [hs]; exact hl.step s.op, x, hx, hl.evolves_step s.op hk (by rw [← hs]; exact hx)⟩

/-- The generation of a slot counts how often it was vacated, up to wrapping
    around. -/
theorem generation_trail (ht : Trail l steps l') (hl : l.Sound) (hk : l.hold k = some h)
    (hk' : l'.hold k = some h') {e : UInt32} (he : h.tree.nodes.generation? n = some e) :
    h'.tree.nodes.generation? n = some (e + UInt32.ofNat (vacations steps k n)) := by
  induction ht generalizing h e with
  | nil =>
    rw [hk] at hk'; cases hk'
    simpa [vacations] using he
  | @cons s steps l' hs ht ih =>
    obtain ⟨hl', x, hx, hev⟩ := ht.hold_after hs hl hk hk'
    have hvac : s.vacates k n = (x.tree.nodes.generation? n != some e) := by
      simp [Step.vacates, hk, hx, he]
    rw [vacations_cons, hvac]
    rcases hev.generation n e he with hg | hg
    · rw [ih hl' hx hk' hg, hg]
      simp
    · rw [ih hl' hx hk' hg, hg]
      simp [UInt32.add_comm, UInt32.add_assoc]

/-- A node whose slot is not vacated stays. -/
theorem kept_trail (ht : Trail l steps l') (hl : l.Sound) (hk : l.hold k = some h)
    (hk' : l'.hold k = some h') (hi : h.tree.nodes.get? i = some node)
    (hv : vacations steps k i.slot = 0) :
    (∃ node', h'.tree.nodes.get? i = some node' ∧ node'.place = node.place) ∧
      ∀ s ∈ steps, s.Keeps k i := by
  induction ht generalizing h node with
  | nil =>
    rw [hk] at hk'; cases hk'
    exact ⟨⟨node, hi, rfl⟩, by simp⟩
  | @cons s steps l' hs ht ih =>
    obtain ⟨hl', x, hx, hev⟩ := ht.hold_after hs hl hk hk'
    have hg := Slots.generation?_of_get? hi
    rw [vacations_cons] at hv
    have hnot : s.vacates k i.slot = false := by
      by_contra hne
      rw [Bool.not_eq_false] at hne
      rw [hne] at hv; simp at hv
    have hgen : x.tree.nodes.generation? i.slot = some i.generation := by
      simpa [Step.vacates, hk, hx, hg] using hnot
    obtain ⟨node', hn', hp⟩ := hev.kept i node hi hgen
    obtain ⟨⟨node'', hn'', hp'⟩, hkeeps⟩ := ih hl' hx hk' hn' (by omega)
    refine ⟨⟨node'', hn'', hp'.trans hp⟩, fun s' hs' => ?_⟩
    rcases List.mem_cons.1 hs' with rfl | hs'
    · exact ⟨x, hx, by rw [hn']; rfl⟩
    · exact hkeeps s' hs'

theorem vacations_eq_zero (ht : Trail l steps l') (hl : l.Sound) (hk : l.hold k = some h)
    (hk' : l'.hold k = some h') (hi : (h.tree.nodes.get? i).isSome)
    (hi' : (h'.tree.nodes.get? i).isSome) (hv : vacations steps k i.slot < 2 ^ 32) :
    vacations steps k i.slot = 0 := by
  obtain ⟨node, hn⟩ := Option.isSome_iff_exists.1 hi
  obtain ⟨node', hn'⟩ := Option.isSome_iff_exists.1 hi'
  have hg := generation_trail ht hl hk hk' (Slots.generation?_of_get? hn)
  rw [Slots.generation?_of_get? hn'] at hg
  have hzero : UInt32.ofNat (vacations steps k i.slot) = 0 := by
    have hnat := congrArg UInt32.toNat (Option.some.inj hg)
    rw [UInt32.toNat_add] at hnat
    have hlt := i.generation.toNat_lt
    have hlt' := (UInt32.ofNat (vacations steps k i.slot)).toNat_lt
    refine UInt32.toNat_inj.1 (show _ = 0 from ?_)
    omega
  have := congrArg UInt32.toNat hzero
  rw [UInt32.toNat_ofNat_of_lt' (by simpa [UInt32.size] using hv)] at this
  exact this

/-- Where no slot is vacated 2^32 times, an index that is alive before and after
    was alive all along, and names the same node. -/
theorem alive_trail (ht : Trail l steps l') (hl : l.Sound) (hk : l.hold k = some h)
    (hk' : l'.hold k = some h') (hi : h.tree.nodes.get? i = some node)
    (hi' : (h'.tree.nodes.get? i).isSome) (hv : vacations steps k i.slot < 2 ^ 32) :
    (∃ node', h'.tree.nodes.get? i = some node' ∧ node'.place = node.place) ∧
      ∀ s ∈ steps, s.Keeps k i :=
  kept_trail ht hl hk hk' hi (vacations_eq_zero ht hl hk hk' (by rw [hi]; rfl) hi' hv)

theorem alive_of_keeps (ht : Trail l steps l') (hk : l.hold k = some h)
    (hi : (h.tree.nodes.get? i).isSome) (hkeeps : ∀ s ∈ steps, s.Keeps k i) :
    ∃ h', l'.hold k = some h' ∧ (h'.tree.nodes.get? i).isSome := by
  induction ht generalizing h with
  | nil => exact ⟨h, hk, hi⟩
  | cons _ _ ih =>
    obtain ⟨x, hx, hxi⟩ := hkeeps _ (List.mem_cons_self ..)
    exact ih hx hxi fun s hs => hkeeps s (List.mem_cons_of_mem _ hs)

/-- A node is alive at the end if and only if it was alive all along. -/
theorem alive_iff_keeps (ht : Trail l steps l') (hl : l.Sound) (hk : l.hold k = some h)
    (hk' : l'.hold k = some h') (hi : h.tree.nodes.get? i = some node)
    (hv : vacations steps k i.slot < 2 ^ 32) :
    (h'.tree.nodes.get? i).isSome ↔ ∀ s ∈ steps, s.Keeps k i :=
  ⟨fun hi' => (alive_trail ht hl hk hk' hi hi' hv).2, fun hkeeps => by
    obtain ⟨x, hx, hxi⟩ := alive_of_keeps ht hk (by rw [hi]; rfl) hkeeps
    rw [hk'] at hx; cases hx
    exact hxi⟩

/-- A record is there at the end, with the same owner, if and only if it was there
    all along. -/
theorem record_iff_keeps (ht : Trail l steps l') (hl : l.Sound) (hk : l.hold k = some h)
    {o : Index} {old : Option Release} (hi : h.tree.record? i = some (o, old))
    (hv : vacations steps k i.slot < 2 ^ 32) :
    (∀ s ∈ steps, s.Keeps k i) ↔
      ∃ h' new, l'.hold k = some h' ∧ h'.tree.record? i = some (o, new) := by
  have hi := Tree.record?_eq_some_iff.1 hi
  constructor
  · intro hkeeps
    obtain ⟨h', hk', hi'⟩ := alive_of_keeps ht hk (by rw [hi]; rfl) hkeeps
    obtain ⟨⟨node', hn', hp⟩, -⟩ := alive_trail ht hl hk hk' hi hi' hv
    cases node' with
    | scope p cs => cases hp
    | record o' new => cases hp; exact ⟨h', new, hk', Tree.record?_eq_some_iff.2 hn'⟩
  · rintro ⟨h', new, hk', hi'⟩
    exact (alive_iff_keeps ht hl hk hk' hi hv).1 (by rw [Tree.record?_eq_some_iff.1 hi']; rfl)

/-- A scope is alive at the end if and only if it was alive all along; it is then
    still in the scope that it was in. -/
theorem isScope_iff_keeps (ht : Trail l steps l') (hl : l.Sound) (hk : l.hold k = some h)
    (hk' : l'.hold k = some h') {p : Option Index} {cs : List Index}
    (hi : h.tree.nodes.get? i = some (.scope p cs)) (hv : vacations steps k i.slot < 2 ^ 32) :
    (h'.tree.isScope i = true ↔ ∀ s ∈ steps, s.Keeps k i) ∧
      (h'.tree.isScope i = true → ∃ cs', h'.tree.nodes.get? i = some (.scope p cs')) := by
  have hplace : (h'.tree.nodes.get? i).isSome →
      ∃ cs', h'.tree.nodes.get? i = some (.scope p cs') := by
    intro hi'
    obtain ⟨⟨node', hn', hp⟩, -⟩ := alive_trail ht hl hk hk' hi hi' hv
    cases node' with
    | scope p' cs' => cases hp; exact ⟨cs', hn'⟩
    | record o r => cases hp
  have hsome : h'.tree.isScope i = true ↔ (h'.tree.nodes.get? i).isSome := by
    refine ⟨fun hs => ?_, fun hs => ?_⟩
    · obtain ⟨q, cs', hn⟩ := Tree.isScope_iff.1 hs
      rw [hn]; rfl
    · obtain ⟨cs', hn⟩ := hplace hs
      exact Tree.isScope_iff.2 ⟨p, cs', hn⟩
  exact ⟨hsome.trans (alive_iff_keeps ht hl hk hk' hi hv), fun hs => hplace (hsome.1 hs)⟩

/-- An operation that keeps a node leaves it in its place. -/
theorem Step.place_of_keeps {s : Step} (hs : s.after.ledger = s.op.step s.before.ledger)
    (hl : s.before.ledger.Sound) (hk : s.before.ledger.hold k = some h)
    (hi : h.tree.nodes.get? i = some node) (hkeeps : s.Keeps k i) :
    ∃ h' node', s.after.ledger.hold k = some h' ∧ h'.tree.nodes.get? i = some node' ∧
      node'.place = node.place := by
  obtain ⟨h', hk', hi'⟩ := hkeeps
  have ht : Trail s.before.ledger [s] s.after.ledger := .cons hs (.nil _)
  -- one operation vacates a slot at most once
  have hv : vacations [s] k i.slot < 2 ^ 32 :=
    Nat.lt_of_le_of_lt (vacations_le _ k i.slot) (by rw [List.length_singleton]; decide)
  obtain ⟨⟨node', hn, hplace⟩, -⟩ := alive_trail ht hl hk hk' hi hi' hv
  exact ⟨h', node', hk', hn, hplace⟩

/-- A node that is alive all along stays in its place. -/
theorem Trail.place_of_keeps (ht : Trail l steps l') (hl : l.Sound) (hk : l.hold k = some h)
    (hi : h.tree.nodes.get? i = some node) (hkeeps : ∀ s ∈ steps, s.Keeps k i) :
    ∃ h' node', l'.hold k = some h' ∧ h'.tree.nodes.get? i = some node' ∧
      node'.place = node.place := by
  induction ht generalizing h node with
  | nil => exact ⟨h, node, hk, hi, rfl⟩
  | @cons s steps l' hs ht ih =>
    obtain ⟨x, n, hx, hxi, hplace⟩ := Step.place_of_keeps hs hl hk hi (hkeeps s (List.mem_cons_self ..))
    obtain ⟨h', node', hk', hi', hplace'⟩ := ih (by rw [hs]; exact hl.step s.op) hx hxi fun s' hs' =>
      hkeeps s' (List.mem_cons_of_mem _ hs')
    exact ⟨h', node', hk', hi', hplace'.trans hplace⟩

theorem Node.scope_of_place {p : Option Index} {cs : List Index}
    (h : node.place = (Node.scope p cs : Node Release).place) : ∃ cs', node = .scope p cs' := by
  cases node with
  | scope p' cs' => cases h; exact ⟨cs', rfl⟩
  | record o r => cases h

/-- A scope that is alive all along stays in the scope that it was in. -/
theorem Trail.scope_of_keeps (ht : Trail l steps l') (hl : l.Sound) (hk : l.hold k = some h)
    {p : Option Index} {cs : List Index} (hi : h.tree.nodes.get? i = some (.scope p cs))
    (hkeeps : ∀ s ∈ steps, s.Keeps k i) :
    ∃ h' cs', l'.hold k = some h' ∧ h'.tree.nodes.get? i = some (.scope p cs') := by
  obtain ⟨h', node', hk', hi', hplace⟩ := ht.place_of_keeps hl hk hi hkeeps
  obtain ⟨cs', rfl⟩ := Node.scope_of_place hplace
  exact ⟨h', cs', hk', hi'⟩

theorem Step.scope_of_keeps {s : Step} (hs : s.after.ledger = s.op.step s.before.ledger)
    (hl : s.before.ledger.Sound) (hk : s.before.ledger.hold k = some h) {p : Option Index}
    {cs : List Index} (hi : h.tree.nodes.get? i = some (.scope p cs)) (hkeeps : s.Keeps k i) :
    ∃ h' cs', s.after.ledger.hold k = some h' ∧ h'.tree.nodes.get? i = some (.scope p cs') :=
  Trail.scope_of_keeps (.cons hs (.nil _)) hl hk hi fun s' hs' => by
    rwa [List.mem_singleton.1 hs']

/-- The top scope stays the same. -/
theorem top_trail (ht : Trail l steps l') (hl : l.Sound) (hk : l.hold k = some h)
    (hk' : l'.hold k = some h') : h'.tree.top = h.tree.top := by
  induction ht generalizing h with
  | nil => rw [hk] at hk'; cases hk'; rfl
  | @cons s steps l' hs ht ih =>
    obtain ⟨hl', x, hx, hev⟩ := ht.hold_after hs hl hk hk'
    exact (ih hl' hx hk').trans hev.top

/-! ## Reservations -/

/-- The record that a change reserves. -/
def Change.reserved? : Change → Hold → Option Index
  | reserve, h => h.tree.reserve.1
  | push, _ | pop, _ | destroy _, _ | leave _, _ | commit _ _, _ | write _ _ _, _ | enter _, _
  | exit _ _, _ => none

/-- The record that an operation reserves in a context. -/
def Step.reserved? (s : Step) (k : ContextId) : Option Index :=
  match s.op with
  | .change j c => if j = k then (s.before.ledger.hold k).bind c.reserved? else none
  | .newContext _ | .dropContext _ => none

/-- The records that operations reserve in a context, in order. -/
def issued (steps : List Step) (k : ContextId) : List Index :=
  steps.filterMap (·.reserved? k)

theorem Step.reserved?_of_change {s : Step} {c : Change} (hop : s.op = .change k c)
    (hk : s.before.ledger.hold k = some h) : s.reserved? k = c.reserved? h := by
  simp only [reserved?, hop, if_true, hk, Option.bind_some]

theorem Step.reserved?_of_ne {s : Step} (hop : ∀ c, s.op ≠ .change k c) : s.reserved? k = none := by
  unfold reserved?
  split
  · rename_i j c h
    exact if_neg fun hj : j = k => hop c (hj ▸ h)
  all_goals rfl

theorem Step.reserved?_eq_some_iff {s : Step} : s.reserved? k = some i ↔
    s.op = .change k .reserve ∧ ∃ h, s.before.ledger.hold k = some h ∧ h.tree.reserve.1 = some i := by
  constructor
  · intro hs
    by_cases hop : ∃ c, s.op = .change k c
    · obtain ⟨c, hop⟩ := hop
      simp only [reserved?, hop, if_true, Option.bind_eq_some_iff] at hs
      obtain ⟨h, hk, hi⟩ := hs
      cases c with
      | reserve => exact ⟨hop, h, hk, hi⟩
      | _ => cases hi
    · rw [reserved?_of_ne fun c hc => hop ⟨c, hc⟩] at hs
      cases hs
  · rintro ⟨hop, h, hk, hi⟩
    rw [reserved?_of_change hop hk, Change.reserved?, hi]

/-- What a reservation finds and what it leaves. -/
theorem Step.reserved?_spec {s : Step} (hs : s.reserved? k = some i)
    (hstep : s.after.ledger = s.op.step s.before.ledger) (hl : s.before.ledger.Sound) :
    ∃ h h', s.before.ledger.hold k = some h ∧ s.after.ledger.hold k = some h' ∧
      h.tree.nodes.get? i = none ∧ h'.tree.nodes.get? i = some (.record h.tree.current none) := by
  obtain ⟨hop, h, hk, hr⟩ := Step.reserved?_eq_some_iff.1 hs
  obtain ⟨w, hw⟩ := hl.shows k h hk
  have hreserve : h.tree.reserve = (some i, h.tree.reserve.2) := Prod.ext hr rfl
  obtain ⟨-, -, -, hi⟩ := hw.reserve hreserve
  refine ⟨h, Change.apply .reserve h, hk, ?_, ?_, Tree.get?_addChild hw.isScope_current hreserve⟩
  · rw [hstep, hop]
    show (s.before.ledger.onHold k _).hold k = _
    rw [Ledger.hold_onHold, if_pos rfl, hk]
    rfl
  · rw [← Option.not_isSome_iff_eq_none, ← hw.mem_iff]
    exact hi

/-- A record that is alive is not reserved again. -/
theorem notMem_issued (ht : Trail l steps l') (hl : l.Sound) (hk : l.hold k = some h)
    (hi : (h.tree.nodes.get? i).isSome) (hv : vacations steps k i.slot < 2 ^ 32) :
    i ∉ issued steps k := by
  intro hmem
  obtain ⟨s, hs, hres⟩ := List.mem_filterMap.1 hmem
  obtain ⟨pre, post, rfl⟩ := List.append_of_mem hs
  obtain ⟨hpre, hstep, -⟩ := ht.split
  obtain ⟨x, y, hx, hy, hnone, hsome⟩ := Step.reserved?_spec hres hstep (hpre.sound hl)
  -- alive before and after, it was alive when it was reserved
  have hupto : Trail l (pre ++ [s]) s.after.ledger := hpre.append (.cons hstep (.nil _))
  obtain ⟨node, hn⟩ := Option.isSome_iff_exists.1 hi
  have hnil : vacations [] k i.slot = 0 := rfl
  have hv' : vacations (pre ++ [s]) k i.slot < 2 ^ 32 := by
    rw [vacations_append, vacations_cons] at hv ⊢
    omega
  have hkeeps := (alive_trail hupto hl hk hy hn (by rw [hsome]; rfl) hv').2
  obtain ⟨x', hx', halive⟩ := alive_of_keeps hpre hk hi fun s' hs' =>
    hkeeps s' (List.mem_append_left _ hs')
  rw [hx] at hx'; cases hx'
  rw [hnone] at halive; cases halive

/-- Where no slot is vacated 2^32 times, no record is reserved twice. -/
theorem issued_nodup (ht : Trail l steps l') (hl : l.Sound)
    (hv : ∀ n, vacations steps k n < 2 ^ 32) : (issued steps k).Nodup := by
  induction ht with
  | nil => exact List.nodup_nil
  | @cons s steps l' hs ht ih =>
    have hl' : s.after.ledger.Sound := by rw [hs]; exact hl.step s.op
    have hv' : ∀ n, vacations steps k n < 2 ^ 32 := by
      intro n
      have := hv n
      rw [vacations_cons] at this
      omega
    rw [issued, List.filterMap_cons]
    split
    · exact ih hl' hv'
    · rename_i i hres
      obtain ⟨h, h', -, hk', -, hsome⟩ := Step.reserved?_spec hres hs hl
      exact List.nodup_cons.2
        ⟨notMem_issued ht hl' hk' (by rw [hsome]; rfl) (hv' i.slot), ih hl' hv'⟩

end ScopedResources
