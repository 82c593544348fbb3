/-
  Contexts that do not interfere.

  Many contexts live in one process, and what is done with them may alternate in any
  way.  Each of them goes its own way all the same: an index of another context finds
  nothing in it, and its answers and what it has to release are those that it would give
  if nothing else were done.

  * `Exchange` is what was done with one context; `Asking` are the pieces of runs that leave
    such exchanges.
  * `Stranger`: what is done through the index of another context comes to nothing.
  * `Told` is what one context goes through, from its own exchanges.
  * `contexts_independent`: two runs in which the same is done with a context agree on
    everything about it, whatever else is done in them.
-/
import Mathlib.Logic.Equiv.Basic
import ScopedResources.Proofs.Demands

namespace ScopedResources

/-! ## What is done with contexts -/

/-- Something that is done with a context. -/
inductive Act where
  | create (program : String)
  | ask (q : Demand)
  | drop

/-- Something that was done with a context, and the answer. -/
structure Exchange where
  before : World
  context : ContextId
  act : Act
  reply : Except Stop Reply
  after : World

/-- What is due in the context. -/
def Act.due (c : Context) : Act → List (Due Release)
  | create _ => []
  | ask q => q.due c
  | drop => Ledger.dueOf c.tree c.tree.top

def Act.rename (θ : Renaming) : Act → Act
  | create program => .create program
  | ask q => .ask (q.rename θ)
  | drop => .drop

def Exchange.due (e : Exchange) : List (Due Release) :=
  e.act.due (e.before.context e.context)

/-- The exchanges of one context. -/
def exchangesOf (k : ContextId) (es : List Exchange) : List Exchange :=
  es.filter (·.context = k)

/-- What was done with one context. -/
def actsOf (k : ContextId) (es : List Exchange) : List Act :=
  (exchangesOf k es).map (·.act)

/-- The pieces of runs that create contexts, ask them and drop them. -/
inductive Asking : {α : Type} → Run α → World → List Exchange → Except Stop α → World → Prop
  /-- A run that leaves the contexts alone. -/
  | aside {α : Type} {run : Run α} {w w' : World} {r : Except Stop α} :
    run.exec w = (r, w') → w'.contexts = w.contexts → w'.journal.ran = w.journal.ran →
    Asking run w [] r w'
  | create {w : World} (program : String) :
    Asking (Run.newContext program) w
      [⟨w, w.contexts.size, .create program, .ok .done, ((Run.newContext program).exec w).2⟩]
      (.ok w.contexts.size) ((Run.newContext program).exec w).2
  /-- Something is asked of a context that is alive. -/
  | ask {α : Type} {run : Run α} {k : ContextId} {w w' : World} {r : Except Stop α} (q : Demand)
    (f : α → Reply) : (w.context? k).isSome → f <$> run = q.run k → run.exec w = (r, w') →
    r ≠ .error .abort → Asking run w [⟨w, k, .ask q, r.map f, w'⟩] r w'
  | drop {k : ContextId} {w w' : World} : (w.context? k).isSome →
    (Run.dropContext k).exec w = (.ok (), w') →
    Asking (Run.dropContext k) w [⟨w, k, .drop, .ok .done, w'⟩] (.ok ()) w'
  /-- The end of the process. -/
  | abort {α : Type} {run : Run α} {w w' : World} :
    run.exec w = (.error .abort, w') → Asking run w [] (.error .abort) w'

/-! ## The index of another context -/

/-- An index that is used in a context, where it finds nothing: whoever asks for what it
    names gets nothing, and what is done through it leaves the context as it is. -/
structure Stranger (k : ContextId) (i : Index) (w : World) (c : Context) : Prop where
  isScope : c.tree.isScope i = false
  parent? : c.tree.parent? i = none
  children? : c.tree.children? i = none
  isReserved : c.tree.isReserved i = false
  owner? : c.tree.owner? i = none
  payload? : c.payload? i = none
  block? : c.block? i = none
  text? : c.text? i = none
  destroyScope : (Run.destroyScope k i).exec w = (.ok false, w)
  leaveScope : (Run.leaveScope k i).exec w = (.ok false, w)
  destroyHandle : ∀ {α : Type} (value : α),
    (Run.destroyHandle k ⟨i, value⟩).exec w = (.ok false, w.record (.staleHandle i))
  setByte : ∀ position byte, (Run.setByte k i position byte).exec w = (.ok none, w)
  /-- A release that is attached to it runs at once. -/
  commit : ∀ release r w', (Run.commit k i release).exec w = (r, w') → r ≠ .error .abort →
    (∃ new, w'.journal.ran = new.reverse ++ w.journal.ran ∧ Ledger.InTurn [⟨i, release⟩] new) ∧
      ∀ c', w'.context? k = some c' → c'.tree = c.tree ∧ c'.frame = c.frame

variable {w w' : World} {k j : ContextId} {c c' : Context} {i : Index}

/-- An index that finds no node is a stranger. -/
theorem stranger (hc : w.context? k = some c) (hi : c.tree.nodes.get? i = none) :
    Stranger k i w c := by
  have hcontext : w.context k = c := World.context_of_context? hc
  have hscope : c.tree.scope? i = none := by rw [Tree.scope?, hi]
  have hrecord : c.tree.record? i = none := by rw [Tree.record?, hi]
  have hisScope : c.tree.isScope i = false := by rw [Tree.isScope, hscope]; rfl
  have hparent : c.tree.parent? i = none := by rw [Tree.parent?, hscope]; rfl
  have hpayload : c.payload? i = none := by
    rw [Context.payload?, Tree.release?, hrecord]; rfl
  have hdestroy : (Run.destroyScope k i).exec w = (.ok false, w) :=
    Run.exec_destroyScope_dead (by rw [hcontext]; exact hisScope)
  refine ⟨hisScope, hparent, by rw [Tree.children?, hscope]; rfl, by rw [Tree.isReserved, hrecord],
    by rw [Tree.owner?, hrecord]; rfl, hpayload, by rw [Context.block?, hpayload],
    by rw [Context.text?, hpayload], hdestroy, ?_, fun value => ?_,
    fun position byte => ?_, fun release r w' hexec hr => ?_⟩
  · rw [Run.leaveScope, Run.exec_bind_ok (Run.exec_view hc _), hparent]
    exact hdestroy
  · rw [Run.destroyHandle, Run.exec_bind_ok hdestroy]
    rfl
  · rw [Run.setByte, Run.exec_bind_ok (Run.exec_view hc _), Context.block?, hpayload]
    rfl
  · have hcommit : c.tree.commit i release = (false, c.tree) := by rw [Tree.commit, hi]
    have hask : (Demand.run k (.change (.commit i release))).exec w = (r.map fun _ => .done, w') := by
      rw [Demand.run, Change.ask, Run.exec_map, hexec]
    have h := Demand.exec _ hc hask (Run.map_ne_abort hr)
    constructor
    · have hturn := h.inTurn
      have hdue : Demand.due c (.change (.commit i release)) = [⟨i, release⟩] := by
        rw [Demand.due, Change.due, show c.hold.tree = c.tree from rfl, hcommit]
        rfl
      rwa [hdue] at hturn
    · intro c' hc'
      rw [h.own c' hc', Demand.next, Change.apply, show c.hold.tree = c.tree from rfl, hcommit]
      exact ⟨rfl, rfl⟩

/-- Identities are 32-bit words. -/
theorem arena_ne (hk : k < 2 ^ 32) (hj : j < 2 ^ 32) (hne : k ≠ j) :
    UInt32.ofNat k ≠ UInt32.ofNat j := by
  intro h
  have hnat := congrArg UInt32.toNat h
  rw [UInt32.toNat_ofNat', UInt32.toNat_ofNat', Nat.mod_eq_of_lt hk, Nat.mod_eq_of_lt hj] at hnat
  exact hne hnat

/-- An index of another context is a stranger. -/
theorem stranger_of_other (hl : w.ledger.Sound) (hk : k < 2 ^ 32) (hj : j < 2 ^ 32) (hne : k ≠ j)
    (hi : i.arena = UInt32.ofNat j) (hc : w.context? k = some c) : Stranger k i w c := by
  refine stranger hc ?_
  rcases hget : c.tree.nodes.get? i with _ | node
  · rfl
  · have harena : c.tree.nodes.arena = UInt32.ofNat k := hl.arena k c.hold (World.hold_of_context? hc)
    have hsame := Slots.arena_of_get? hget
    rw [hi, harena] at hsame
    exact absurd hsame.symm (arena_ne hk hj hne)

/-! ## What a context goes through -/

/-- What becomes of a context: the answer, what is due, and the context after it. -/
inductive Act.Gives (k : ContextId) :
    Act → Option Context → Except Stop Reply → List (Due Release) → Option Context → Prop
  /-- A new context depends on nothing. -/
  | create (program : String) (c : Option Context) :
    Gives k (.create program) c (.ok .done) [] (some (Context.new k program))
  | ask (q : Demand) (c : Context) :
    Gives k (.ask q) (some c) (q.answer c) (q.due c) (some (q.next c))
  | drop (c : Context) : Gives k .drop (some c) (.ok .done) (Ledger.dueOf c.tree c.tree.top) none

/-- An exchange with a context, from one state of it to another; it may be gone
    afterwards. -/
structure Exchange.Tells (k : ContextId) (e : Exchange) (c c' : Option Context) : Prop where
  context : e.context = k
  gives : e.act.Gives k c e.reply e.due c'
  after : ∀ c'', e.after.context? k = some c'' → c' = some c''

/-- What a context goes through by its own exchanges, from one state to another. -/
inductive Told (k : ContextId) : Option Context → List Exchange → Option Context → Prop
  | nil (c : Option Context) : Told k c [] c
  | cons {c c' c'' : Option Context} {e : Exchange} {es : List Exchange} :
    e.Tells k c c' → Told k c' es c'' → Told k c (e :: es) c''

theorem Told.snoc {c c' c'' : Option Context} {e : Exchange} {es : List Exchange} (h : Told k c es c')
    (he : e.Tells k c' c'') : Told k c (es ++ [e]) c'' := by
  induction h with
  | nil => exact .cons he (.nil _)
  | cons hd _ ih => exact .cons hd (ih he)

variable {θ : Renaming}

theorem Context.rename_new {k' : ContextId} (hk : θ.arena (UInt32.ofNat k) = UInt32.ofNat k')
    (program : String) : (Context.new k program).rename θ = Context.new k' program := by
  rw [Context.new, Context.new, ← hk]
  simp [Context.rename, Tree.rename, Tree.new, Slots.rename, Slot.map, Node.rename, Index.rename]

/-- What is given under other identities. -/
theorem Act.Gives.rename {a : Act} {c c' d' : Option Context} {r r' : Except Stop Reply}
    {due due' : List (Due Release)} {k' : ContextId} (hk : θ.arena (UInt32.ofNat k) = UInt32.ofNat k')
    (h : a.Gives k c r due c') (h' : (a.rename θ).Gives k' (c.map (·.rename θ)) r' due' d') :
    r' = r.map (·.rename θ) ∧ due' = due.map (·.rename θ) ∧ d' = c'.map (·.rename θ) := by
  cases h with
  | create program c =>
    cases h' with
    | create => exact ⟨rfl, rfl, congrArg some (Context.rename_new hk program).symm⟩
  | ask q c =>
    cases h' with
    | ask => exact ⟨q.answer_rename c, q.due_rename c, congrArg some (q.next_rename c)⟩
  | drop c =>
    cases h' with
    | drop => exact ⟨rfl, Ledger.dueOf_rename c.tree c.tree.top, rfl⟩

/-- Two exchanges with the same answer, the same releases due and the same context after
    them, up to identities. -/
structure Exchange.Agrees (θ : Renaming) (e e' : Exchange) : Prop where
  reply : e'.reply = e.reply.map (·.rename θ)
  due : e'.due = e.due.map (·.rename θ)
  after : ∀ c c', e.after.context? e.context = some c → e'.after.context? e'.context = some c' →
    c' = c.rename θ

/-- A context goes through the same, whatever its identity is. -/
theorem Told.agrees {k' : ContextId} (hk : θ.arena (UInt32.ofNat k) = UInt32.ofNat k')
    {c d d' : Option Context} {es es' : List Exchange} (h : Told k c es d)
    (h' : Told k' (c.map (·.rename θ)) es' d')
    (hacts : es'.map (·.act) = (es.map (·.act)).map (·.rename θ)) :
    List.Forall₂ (Exchange.Agrees θ) es es' ∧ d' = d.map (·.rename θ) := by
  induction h generalizing es' with
  | nil c =>
    obtain rfl := List.map_eq_nil_iff.1 hacts
    cases h'
    exact ⟨.nil, rfl⟩
  | @cons c c' c'' e es hd _ ih =>
    cases h' with
    | nil => cases hacts
    | @cons _ b' _ e' es' hd' h' =>
      obtain ⟨hact, hacts⟩ := List.cons.inj hacts
      have hgives' := hd'.gives
      rw [show e'.act = e.act.rename θ from hact] at hgives'
      obtain ⟨hreply, hdue, rfl⟩ := hd.gives.rename hk hgives'
      obtain ⟨hrest, hend⟩ := ih h' hacts
      refine ⟨.cons ⟨hreply, hdue, fun b b' hb hb' => ?_⟩ hrest, hend⟩
      rw [hd.context] at hb
      rw [hd'.context] at hb'
      have hsame := hd'.after b' hb'
      rw [hd.after b hb] at hsame
      exact (Option.some.inj hsame).symm

/-! ## What each exchange is like -/

/-- The indices in an answer. -/
def Reply.indices : Reply → List Index
  | index i => [i]
  | call (.ok c) => [c.resume, c.boundary]
  | call (.error _) | done | flag _ | byte _ | report _ | failure _ => []

theorem Reply.indices_of_failing {f : Option Failure} {reply : Reply}
    (h : Reply.failing f = .ok reply) : reply.indices = [] := by
  cases f <;> cases h
  rfl

/-- An exchange that has run what was due, in order, and answered with indices of its own
    context only. -/
structure Exchange.Proper (e : Exchange) : Prop where
  inTurn : ∃ new, e.after.journal.ran = new.reverse ++ e.before.journal.ran ∧
    Ledger.InTurn e.due new
  arena : ∀ reply, e.reply = .ok reply → ∀ i ∈ reply.indices, i.arena = UInt32.ofNat e.context

theorem Slots.arena_of_insert {α : Type} {s : Slots α} {v : α} (hi : (s.insert v).1 = some i) :
    i.arena = s.arena := by
  unfold insert at hi
  split at hi
  · split at hi
    · cases hi; rfl
    · cases hi
  · split at hi
    · cases hi; rfl
    · cases hi

theorem Tree.arena_of_addChild {t : Tree Release} (node : Node Release)
    (hi : (t.addChild node).1 = some i) : i.arena = t.nodes.arena := by
  obtain ⟨nodes, top, current⟩ := t
  refine Slots.arena_of_insert (v := node) ?_
  rw [← hi, addChild]
  rcases nodes.insert node with ⟨_ | i, nodes'⟩
  · rfl
  · dsimp only
    split <;> rfl

theorem Tree.arena_of_push {t : Tree Release} (hi : t.push.1 = some i) : i.arena = t.nodes.arena := by
  refine arena_of_addChild (.scope (some t.current) []) ?_
  rw [← hi, push]
  rcases t.addChild (.scope (some t.current) []) with ⟨_ | i, t'⟩ <;> rfl

theorem Change.arena_of_answer {t : Forest Release} (ht : c.tree.Shows t) (ch : Change) {reply : Reply}
    (hreply : ch.answer c = .ok reply) (hi : i ∈ reply.indices) : i.arena = c.tree.nodes.arena := by
  have hcurrent : c.tree.current.arena = c.tree.nodes.arena := by
    obtain ⟨p, cs, hget⟩ := Tree.isScope_iff.1 ht.isScope_current
    exact Slots.arena_of_get? hget
  have hgrown : ∀ {n : Option Index}, c.grown n = .ok reply → n = some i := by
    intro n hn
    cases n with
    | none => cases hn
    | some j =>
      cases hn
      rw [List.mem_singleton.1 hi]
  cases ch with
  | push => exact Tree.arena_of_push (hgrown hreply)
  | pop =>
    cases hreply
    rw [List.mem_singleton.1 hi]
    exact hcurrent
  | destroy | leave | commit | write =>
    cases hreply
    cases hi
  | reserve => exact Tree.arena_of_addChild _ (hgrown hreply)
  | enter detail =>
    rw [answer] at hreply
    rcases hp : c.tree.push.1 with _ | boundary <;> rw [hp] at hreply
    · rcases hn : c.noMemory? with _ | f <;> rw [hn] at hreply <;> cases hreply
      cases hi
    · cases hreply
      rcases List.mem_pair.1 hi with rfl | rfl
      · exact hcurrent
      · exact Tree.arena_of_push hp
  | exit call how =>
    rcases how with ⟨⟩ | f | p <;> cases hreply <;> cases hi

theorem Demand.arena_of_answer {t : Forest Release} (ht : c.tree.Shows t) (q : Demand) {reply : Reply}
    (hreply : q.answer c = .ok reply) (hi : i ∈ reply.indices) : i.arena = c.tree.nodes.arena := by
  cases q with
  | change ch => exact ch.arena_of_answer ht hreply hi
  | setName program =>
    cases hreply
    cases hi
  | fail code f => exact absurd hi (by rw [Reply.indices_of_failing hreply]; exact List.not_mem_nil)
  | failNoMemory => exact absurd hi (by rw [Reply.indices_of_failing hreply]; exact List.not_mem_nil)

/-! ## A whole run -/

/-- What is known of the exchanges so far: each is proper, and every context goes its own
    way. -/
structure Recorded (pre : List Exchange) : Prop where
  proper : ∀ e ∈ pre, e.Proper
  told : ∀ k, ∃ c, Told k none (exchangesOf k pre) c

/-- The invariant of runs that create contexts, ask them and drop them. -/
structure Isolated (pre : List Exchange) (w : World) : Prop where
  sound : w.ledger.Sound
  proper : ∀ e ∈ pre, e.Proper
  told : ∀ k, ∃ c, Told k none (exchangesOf k pre) c ∧ ∀ c', w.context? k = some c' → c = some c'

theorem Isolated.recorded {pre : List Exchange} (h : Isolated pre w) : Recorded pre :=
  ⟨h.proper, fun k => let ⟨c, hc, _⟩ := h.told k; ⟨c, hc⟩⟩

theorem exchangesOf_snoc (k : ContextId) (pre : List Exchange) (e : Exchange) :
    exchangesOf k (pre ++ [e]) = exchangesOf k pre ++ if e.context = k then [e] else [] := by
  rw [exchangesOf, List.filter_append]
  congr 1
  by_cases he : e.context = k
  · simp [he]
  · simp [he]

/-- After one more exchange it is left to show what it gave, and that the other contexts are
    as before. -/
theorem Isolated.snoc {pre : List Exchange} {e : Exchange} (h : Isolated pre e.before)
    (hsound : e.after.ledger.Sound) (hproper : e.Proper)
    (hgives : ∀ c, (∀ c', e.before.context? e.context = some c' → c = some c') →
      ∃ c', e.act.Gives e.context c e.reply e.due c' ∧
        ∀ c'', e.after.context? e.context = some c'' → c' = some c'')
    (hother : ∀ j c', j ≠ e.context → e.after.context? j = some c' → e.before.context? j = some c') :
    Isolated (pre ++ [e]) e.after where
  sound := hsound
  proper e' he' := by
    rcases List.mem_append.1 he' with he' | he'
    · exact h.proper e' he'
    · rw [List.mem_singleton.1 he']
      exact hproper
  told k := by
    obtain ⟨c, htold, hc⟩ := h.told k
    rw [exchangesOf_snoc]
    by_cases hk : e.context = k
    · subst hk
      obtain ⟨c', hgives, hc'⟩ := hgives c hc
      rw [if_pos rfl]
      exact ⟨c', htold.snoc ⟨rfl, hgives, hc'⟩, hc'⟩
    · rw [if_neg hk, List.append_nil]
      exact ⟨c, htold, fun c' hc' => hc c' (hother k c' (Ne.symm hk) hc')⟩

/-- A context that is dropped is taken out, and all that it holds is released. -/
theorem Ledger.drop_eq {l : Ledger} {h : Hold} (hlt : k < l.count) (hk : l.hold k = some h) :
    ∃ inner : ContextId → Ledger → Ledger, (∀ j l, Outlasts l (inner j l)) ∧
      l.drop k = releaseAll inner (dueOf h.tree h.tree.top) (l.take k) := by
  rcases hcount : l.count with _ | b
  · rw [hcount] at hlt
    exact absurd hlt (Nat.not_lt_zero _)
  · refine ⟨dropWithin b, outlasts_dropWithin b, ?_⟩
    rw [drop, hcount, dropWithin, hk]

namespace Asking

variable {α : Type} {run : Run α} {r : Except Stop α} {pre es : List Exchange}

theorem isolated_create (hw : Isolated pre w) (program : String) :
    Isolated (pre ++ [⟨w, w.contexts.size, .create program, .ok .done,
      ((Run.newContext program).exec w).2⟩]) ((Run.newContext program).exec w).2 := by
  have hledger := Op.ledger_of_exec (.newContext program) (Run.exec_discard (Run.newContext program) w)
    (fun h => by cases h)
  refine hw.snoc (e := ⟨w, w.contexts.size, .create program, .ok .done, _⟩) ?_ ⟨?_, ?_⟩ ?_ ?_
  · rw [hledger]
    exact hw.sound.step _
  · exact ⟨[], rfl, .nil⟩
  · rintro _ ⟨⟩ i hi
    cases hi
  · intro c _
    refine ⟨_, .create program c, fun c' hc' => ?_⟩
    exact (w.context?_newContext program).symm.trans hc'
  · intro j c' hj hc'
    exact (World.context?_push w _ j hj).symm.trans hc'

theorem isolated_ask (hw : Isolated pre w) (q : Demand) {reply : Except Stop Reply}
    (hc : w.context? k = some c) (hexec : (q.run k).exec w = (reply, w'))
    (hr : reply ≠ .error .abort) : Isolated (pre ++ [⟨w, k, .ask q, reply, w'⟩]) w' := by
  have hanswered := q.exec hc hexec hr
  have hdue : Exchange.due ⟨w, k, .ask q, reply, w'⟩ = q.due c := by
    rw [Exchange.due, Act.due, World.context_of_context? hc]
  refine hw.snoc (e := ⟨w, k, .ask q, reply, w'⟩) (hanswered.sound hw.sound) ⟨?_, ?_⟩ ?_
    hanswered.other
  · rw [hdue]
    exact hanswered.inTurn
  · rintro reply hreply i hi
    have hhold := World.hold_of_context? hc
    obtain ⟨t, ht⟩ := hw.sound.shows k _ hhold
    have harena := q.arena_of_answer ht (hanswered.answer.symm.trans hreply) hi
    rw [harena]
    exact hw.sound.arena k _ hhold
  · intro b hb
    rw [hb c hc, hdue, hanswered.answer]
    exact ⟨_, .ask q c, fun c' hc' => congrArg some (hanswered.own c' hc').symm⟩

theorem isolated_drop (hw : Isolated pre w) (hc : w.context? k = some c)
    (hexec : (Run.dropContext k).exec w = (.ok (), w')) :
    Isolated (pre ++ [⟨w, k, .drop, .ok .done, w'⟩]) w' := by
  have hhold := World.hold_of_context? hc
  have hrun : (Op.dropContext k).run.exec w = (.ok (), w') :=
    Run.exec_of_discard rfl hexec
  have hledger := (Op.dropContext k).ledger_of_exec hrun (by simp)
  obtain ⟨inner, hinner, hdrop⟩ := Ledger.drop_eq (hw.sound.lt k _ hhold) hhold
  have hdue : Exchange.due ⟨w, k, .drop, .ok .done, w'⟩ = Ledger.dueOf c.tree c.tree.top := by
    rw [Exchange.due, Act.due, World.context_of_context? hc]
  have houtlasts := Ledger.outlasts_releaseAll hinner (Ledger.dueOf c.tree c.tree.top) (w.ledger.take k)
  have hw' : w'.ledger = Ledger.releaseAll inner (Ledger.dueOf c.tree c.tree.top) (w.ledger.take k) :=
    hledger.trans hdrop
  refine hw.snoc (e := ⟨w, k, .drop, .ok .done, w'⟩) ?_ ⟨?_, ?_⟩ ?_ ?_
  · rw [hledger]
    exact hw.sound.step _
  · obtain ⟨new, hnew, hturn⟩ := Ledger.inTurn_releaseAll hinner (Ledger.dueOf c.tree c.tree.top)
      (w.ledger.take k)
    rw [hdue]
    exact ⟨new, (congrArg Ledger.ran hw').trans hnew, hturn⟩
  · rintro _ ⟨⟩ i hi
    cases hi
  · intro b hb
    rw [hb c hc, hdue]
    refine ⟨_, .drop c, fun c' hc' => ?_⟩
    -- a context that was taken out does not come back
    have hk := World.hold_of_context? hc'
    rw [hw'] at hk
    have htaken := houtlasts.hold k _ hk
    rw [Ledger.hold_take, if_pos rfl] at htaken
    cases htaken
  · intro j c' hj hc'
    refine (Op.dropContext k).context?_of_other (by simp [Op.Finds]) hrun (by simp) (by simp) ?_ hc'
    have hcount : w'.contexts.size = w.contexts.size :=
      (congrArg Ledger.count hw').trans houtlasts.count
    rw [← hcount]
    exact Run.lt_size_of_context? hc'

/-- Every piece keeps the invariant. -/
theorem isolated (h : Asking run w es r w') (hw : Isolated pre w) :
    (r ≠ .error .abort → Isolated (pre ++ es) w') ∧ (r = .error .abort → Recorded (pre ++ es)) := by
  cases h with
  | aside _ hcontexts hran =>
    have hledger : w'.ledger = w.ledger := World.ledger_congr hcontexts hran
    rw [List.append_nil]
    refine ⟨fun _ => ⟨by rw [hledger]; exact hw.sound, hw.proper, fun k => ?_⟩, fun _ => hw.recorded⟩
    obtain ⟨c, htold, hc⟩ := hw.told k
    exact ⟨c, htold, fun c' hc' => hc c' (by rw [World.context?, ← hcontexts]; exact hc')⟩
  | create program => exact ⟨fun _ => isolated_create hw program, by simp⟩
  | ask q f halive hrun hexec hr =>
    obtain ⟨c, hc⟩ := Option.isSome_iff_exists.1 halive
    have hask := Run.exec_map f run w
    rw [hrun, hexec] at hask
    exact ⟨fun _ => isolated_ask hw q hc hask (Run.map_ne_abort hr), fun he => absurd he hr⟩
  | drop halive hexec =>
    obtain ⟨c, hc⟩ := Option.isSome_iff_exists.1 halive
    exact ⟨fun _ => isolated_drop hw hc hexec, by simp⟩
  | abort _ =>
    rw [List.append_nil]
    exact ⟨fun hr => absurd rfl hr, fun _ => hw.recorded⟩

theorem exec_eq (h : Asking run w es r w') : run.exec w = (r, w') := by
  cases h with
  | aside hexec _ _ => exact hexec
  | create program => rfl
  | ask q f _ _ hexec _ => exact hexec
  | drop _ hexec => exact hexec
  | abort hexec => exact hexec

/-- A demand that is answered. -/
theorem of_ok (q : Demand) (f : α → Reply) (halive : (w.context? k).isSome = true)
    (hrun : f <$> run = q.run k) {a : α} (h : (run.exec w).1 = .ok a) :
    Asking run w [⟨w, k, .ask q, .ok (f a), (run.exec w).2⟩] (.ok a) (run.exec w).2 :=
  .ask q f halive hrun (Prod.ext h rfl) (by simp)

end Asking

theorem isolated_new (host : Host) (identity : String) (log : Option Log) :
    Isolated [] (World.new host identity log) where
  sound := sound_new host identity log
  proper := by simp
  told k := ⟨none, .nil none, fun c hc => by simp [World.new, World.context?] at hc⟩

/-- What is known of a whole run, and of the world at its end if the process goes on. -/
theorem isolated_of_made {α : Type} {run : Run α} {host : Host} {identity : String} {log : Option Log}
    {es : List Exchange} {r : Except Stop α}
    (h : Made Asking run (World.new host identity log) es r w) :
    Recorded es ∧ (r ≠ .error .abort → Isolated es w) := by
  have hkeeps := h.keeps (F := fun _ => True) (fun _ => trivial) Isolated (fun es _ => Recorded es)
    (fun hpiece hw _ => hpiece.isolated hw) (isolated_new host identity log) trivial
  rw [List.nil_append] at hkeeps
  refine ⟨?_, hkeeps.1⟩
  by_cases hr : r = .error .abort
  · exact hkeeps.2 hr
  · exact (hkeeps.1 hr).recorded

/-- Contexts do not interfere.  In every run each demand runs what it makes due, in order,
    and answers with indices of its own context; where the process goes on, an index of
    another context is a stranger.  If the same is done with a context in two runs, up to
    identities, then each time it answers the same, the same is due and it is the same
    afterwards, and it is the same in the end, whatever else is done in these runs. -/
theorem contexts_independent {α β : Type} {run₁ : Run α} {run₂ : Run β} {host₁ host₂ : Host}
    {identity₁ identity₂ : String} {log₁ log₂ : Option Log} {es₁ es₂ : List Exchange}
    {r₁ : Except Stop α} {r₂ : Except Stop β} {w₁ w₂ : World}
    (h₁ : Made Asking run₁ (World.new host₁ identity₁ log₁) es₁ r₁ w₁)
    (h₂ : Made Asking run₂ (World.new host₂ identity₂ log₂) es₂ r₂ w₂) :
    (∀ e ∈ es₁, e.Proper) ∧
    (r₁ ≠ .error .abort → ∀ k j i c, k < 2 ^ 32 → j < 2 ^ 32 → k ≠ j → i.arena = UInt32.ofNat j →
      w₁.context? k = some c → Stranger k i w₁ c) ∧
    ∀ (θ : Renaming) (k₁ k₂ : ContextId), θ.arena (UInt32.ofNat k₁) = UInt32.ofNat k₂ →
      actsOf k₂ es₂ = (actsOf k₁ es₁).map (·.rename θ) →
      List.Forall₂ (Exchange.Agrees θ) (exchangesOf k₁ es₁) (exchangesOf k₂ es₂) ∧
      (r₁ ≠ .error .abort → r₂ ≠ .error .abort → ∀ c₁ c₂, w₁.context? k₁ = some c₁ →
        w₂.context? k₂ = some c₂ → c₂ = c₁.rename θ) := by
  obtain ⟨hrecorded, hend₁⟩ := isolated_of_made h₁
  obtain ⟨hrecorded₂, hend₂⟩ := isolated_of_made h₂
  refine ⟨hrecorded.proper, fun hr k j i c hk hj hne hi hc =>
    stranger_of_other (hend₁ hr).sound hk hj hne hi hc, fun θ k₁ k₂ hθ hacts => ⟨?_, ?_⟩⟩
  · obtain ⟨d₁, htold₁⟩ := hrecorded.told k₁
    obtain ⟨d₂, htold₂⟩ := hrecorded₂.told k₂
    exact (htold₁.agrees hθ htold₂ hacts).1
  · intro hr₁ hr₂ c₁ c₂ hc₁ hc₂
    obtain ⟨d₁, htold₁, hd₁⟩ := (hend₁ hr₁).told k₁
    obtain ⟨d₂, htold₂, hd₂⟩ := (hend₂ hr₂).told k₂
    have hsame := (htold₁.agrees hθ htold₂ hacts).2
    rw [hd₁ c₁ hc₁, hd₂ c₂ hc₂] at hsame
    exact Option.some.inj hsame

/-- The identities of two contexts, one for the other. -/
def Renaming.swap (k j : ContextId) : Renaming where
  arena := Equiv.swap (UInt32.ofNat k) (UInt32.ofNat j)
  injective := (Equiv.swap _ _).injective
  descriptor := id
  lock := id
  context := id

/-- Two contexts, of which the second is given the index of a scope of the first. -/
def alternating : Run Unit := do
  let _ ← Run.newContext "first"
  let _ ← Run.newContext "second"
  let _ ← Run.pushScope 0
  let _ ← Run.pushScope 1
  let _ ← Run.reserve 1
  Run.commit 1 ⟨1, 2, 0⟩ (.note "release" false)
  let _ ← Run.destroyScope 1 ⟨0, 1, 0⟩
  let _ ← Run.destroyScope 1 ⟨1, 1, 0⟩

/-- What is done with the second of these contexts, without the first. -/
def alone : Run Unit := do
  let _ ← Run.newContext "second"
  let _ ← Run.pushScope 0
  let _ ← Run.reserve 0
  Run.commit 0 ⟨0, 2, 0⟩ (.note "release" false)
  let _ ← Run.destroyScope 0 ⟨1, 1, 0⟩
  let _ ← Run.destroyScope 0 ⟨0, 1, 0⟩

/-- The theorem above for a context beside another one and by itself. -/
theorem contexts_independent_alternating : ∃ es w c es' w',
    Made Asking alternating .start es (.ok ()) w ∧ Made Asking alone .start es' (.ok ()) w' ∧
      List.Forall₂ (Exchange.Agrees (.swap 1 0)) (exchangesOf 1 es) (exchangesOf 0 es') ∧
        (exchangesOf 1 es).map (·.due.length) = [0, 0, 0, 0, 0, 1] ∧
          w.context? 1 = some c ∧ Stranger 1 ⟨0, 1, 0⟩ w c := by
  obtain ⟨es, w, hes, hacts, hdue⟩ : ∃ es w, Made Asking alternating .start es (.ok ()) w ∧
      actsOf 1 es = [.create "second", .ask (.change .push),
        .ask (.change .reserve), .ask (.change (.commit ⟨1, 2, 0⟩ (.note "release" false))),
        .ask (.change (.destroy ⟨0, 1, 0⟩)), .ask (.change (.destroy ⟨1, 1, 0⟩))] ∧
      (exchangesOf 1 es).map (·.due.length) = [0, 0, 0, 0, 0, 1] := by
    refine ⟨_, _, .bind (.piece (.create "first")) (.bind (.piece (.create "second"))
      (.bind (.piece (.of_ok (a := ⟨0, 1, 0⟩) (.change .push) .index rfl rfl rfl))
      (.bind (.piece (.of_ok (a := ⟨1, 1, 0⟩) (.change .push) .index rfl rfl rfl))
      (.bind (.piece (.of_ok (a := ⟨1, 2, 0⟩) (.change .reserve) .index rfl rfl rfl))
      (.bind (.piece (.of_ok (a := ()) (.change (.commit ⟨1, 2, 0⟩ (.note "release" false)))
        (fun _ => .done) rfl rfl rfl))
      (.bind (.piece (.of_ok (a := false) (.change (.destroy ⟨0, 1, 0⟩)) .flag
        rfl rfl (by decide +kernel)))
      (.bind (.piece (.of_ok (a := true) (.change (.destroy ⟨1, 1, 0⟩)) .flag
        (by decide +kernel) rfl (by decide +kernel)))
      (.piece (.aside rfl rfl rfl))))))))), rfl, ?_⟩
    decide +kernel
  obtain ⟨es', w', hes', hacts'⟩ : ∃ es' w', Made Asking alone .start es' (.ok ()) w' ∧
      actsOf 0 es' = [.create "second", .ask (.change .push),
        .ask (.change .reserve), .ask (.change (.commit ⟨0, 2, 0⟩ (.note "release" false))),
        .ask (.change (.destroy ⟨1, 1, 0⟩)), .ask (.change (.destroy ⟨0, 1, 0⟩))] := by
    exact ⟨_, _, .bind (.piece (.create "second"))
      (.bind (.piece (.of_ok (a := ⟨0, 1, 0⟩) (.change .push) .index rfl rfl rfl))
      (.bind (.piece (.of_ok (a := ⟨0, 2, 0⟩) (.change .reserve) .index rfl rfl rfl))
      (.bind (.piece (.of_ok (a := ()) (.change (.commit ⟨0, 2, 0⟩ (.note "release" false)))
        (fun _ => .done) rfl rfl rfl))
      (.bind (.piece (.of_ok (a := false) (.change (.destroy ⟨1, 1, 0⟩)) .flag
        rfl rfl (by decide +kernel)))
      (.bind (.piece (.of_ok (a := true) (.change (.destroy ⟨0, 1, 0⟩)) .flag
        (by decide +kernel) rfl (by decide +kernel)))
      (.piece (.aside rfl rfl rfl))))))), rfl⟩
  have hw : alternating.exec .start = (.ok (), w) := hes.exec_eq id Asking.exec_eq
  have halive : ((alternating.exec .start).2.context? 1).isSome = true := by decide +kernel
  rw [hw] at halive
  obtain ⟨c, hc⟩ := Option.isSome_iff_exists.1 halive
  have hsame : actsOf 0 es' = (actsOf 1 es).map (·.rename (.swap 1 0)) := by
    rw [hacts', hacts]
    rfl
  obtain ⟨-, hstranger, hagrees⟩ := contexts_independent hes hes'
  exact ⟨es, w, c, es', w', hes, hes', (hagrees (.swap 1 0) 1 0 rfl hsame).1, hdue, hc,
    hstranger (by simp) 1 0 ⟨0, 1, 0⟩ c (by decide) (by decide) (by decide) rfl hc⟩

end ScopedResources
