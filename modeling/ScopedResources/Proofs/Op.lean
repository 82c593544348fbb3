/-
  The elementary operations on contexts.

  An operation begins a context, drops one, or makes a change in one.  A change
  replaces what its context owns and makes releases due, which run when the
  change is made.

  * `Op.run` is an operation as a run, `Op.step` what it does to a ledger, and
    `Op.moves` says that it does so.
  * All other operations are made of these, and of runs that are aside; see
    `ScopedResources.Proofs.Performs`.
-/
import ScopedResources.Proofs.Effect

namespace ScopedResources

/-- Writes a byte of the block that a record owns. -/
def Tree.write (t : Tree Release) (record : Index) (position : Nat) (byte : UInt8) :
    Tree Release :=
  match t.release? record with
  | some (.forget (.block b)) => (t.commit record (.forget (.block (b.set position byte)))).2
  | _ => t

/-- The tree when a scope is left for its parent. -/
def Tree.leaving (t : Tree Release) (s : Index) : Tree Release :=
  match t.parent? s with
  | some parent => t.enter parent
  | none => t

/-- How many protected calls are active. -/
def Hold.depth (h : Hold) : Nat :=
  match h.frame with
  | some frame => frame.depth
  | none => 0

/-- The way a run ended, with another result. -/
def Exit.map {α β : Type} (f : α → β) : Exit α → Exit β
  | .returned a => .returned (f a)
  | .failed e => .failed e
  | .panicked p => .panicked p

/-- A change in one context. -/
inductive Change where
  | push
  | pop
  | destroy (scope : Index)
  | leave (scope : Index)
  | reserve
  | commit (record : Index) (release : Release)
  | write (record : Index) (position : Nat) (byte : UInt8)
  | enter (detail : Detail)
  | exit (call : ProtectedCall) (how : Exit Unit)

/-- An elementary operation. -/
inductive Op where
  | newContext (program : String)
  | dropContext (k : ContextId)
  | change (k : ContextId) (c : Change)

namespace Change

/-- The change as a run. -/
def run (k : ContextId) : Change → Run Unit
  | push => discard (Run.pushScope k)
  | pop => discard (Run.popScope k)
  | destroy scope => discard (Run.destroyScope k scope)
  | leave scope => discard (Run.leaveScope k scope)
  | reserve => discard (Run.reserve k)
  | commit record release => discard (Run.commit k record release)
  | write record position byte => discard (Run.setByte k record position byte)
  | enter detail => discard (Run.enterCall k detail)
  | exit call how => discard (Run.leaveCall k call how)

/-- What its context owns after the change. -/
def apply : Change → Hold → Hold
  | push, h => { h with tree := h.tree.push.2 }
  | pop, h => { h with tree := h.tree.pop }
  | destroy scope, h => { h with tree := (h.tree.destroy scope).2 }
  | leave scope, h => { h with tree := ((h.tree.leaving scope).destroy scope).2 }
  | reserve, h => { h with tree := h.tree.reserve.2 }
  | commit record release, h => { h with tree := (h.tree.commit record release).2 }
  | write record position byte, h => { h with tree := h.tree.write record position byte }
  | enter detail, h =>
    match h.tree.push with
    | (some boundary, tree) => ⟨tree, some ⟨boundary, detail, h.depth + 1⟩⟩
    | (none, _) => h
  | exit call (.returned _), h => ⟨h.tree.enter call.resume, call.outer⟩
  | exit call (.failed _), h | exit call (.panicked _), h =>
    ⟨((h.tree.enter call.resume).destroy call.boundary).2, call.outer⟩

/-- What the change makes due. -/
def due : Change → Hold → List (Due Release)
  | destroy scope, h => Ledger.dueOf h.tree scope
  | leave scope, h => Ledger.dueOf (h.tree.leaving scope) scope
  | commit record release, h =>
    if (h.tree.commit record release).1 then [] else [⟨record, release⟩]
  | exit call (.failed _), h | exit call (.panicked _), h =>
    Ledger.dueOf (h.tree.enter call.resume) call.boundary
  | push, _ | pop, _ | reserve, _ | write _ _ _, _ | enter _, _ | exit _ (.returned _), _ => []

end Change

namespace Op

/-- The operation as a run. -/
def run : Op → Run Unit
  | newContext program => discard (Run.newContext program)
  | dropContext k => discard (Run.dropContext k)
  | change k c => c.run k

/-- What the operation does to a ledger. -/
def step : Op → Ledger → Ledger
  | newContext _, l =>
    { l with
      count := l.count + 1
      hold := fun j => if j = l.count then some (Context.new j "").hold else l.hold j }
  | dropContext k, l => l.drop k
  | change k c, l => .releaseAll .drop (c.due (l.answer k)) (l.onHold k c.apply)

end Op

/-! ## Changes one after the other -/

namespace Ledger

variable {l : Ledger} {k : ContextId} {f g : Hold → Hold}

theorem onHold_onHold (l : Ledger) (k : ContextId) (f g : Hold → Hold) :
    (l.onHold k f).onHold k g = l.onHold k (g ∘ f) := by
  refine ext_of rfl (fun j => ?_) rfl
  simp only [hold_onHold]
  split
  · rw [Option.map_map]
  · rfl

theorem onHold_congr (h : ∀ x, l.hold k = some x → f x = g x) : l.onHold k f = l.onHold k g := by
  refine ext_of rfl (fun j => ?_) rfl
  rw [hold_onHold, hold_onHold]
  split
  · rename_i hj
    rcases hx : l.hold j with _ | x
    · rfl
    · rw [Option.map_some, Option.map_some, h x (hj ▸ hx)]
  · rfl

theorem tree_answer_onHold (h : (f (Context.new k "").hold).tree = (Context.new k "").hold.tree) :
    ((l.onHold k f).answer k).tree = (f (l.answer k)).tree := by
  unfold answer
  rw [hold_onHold, if_pos rfl]
  rcases l.hold k with _ | x
  · exact h.symm
  · rfl

theorem destroy_onHold (h : (f (Context.new k "").hold).tree = (Context.new k "").hold.tree)
    (s : Index) :
    (l.onHold k f).destroy k s =
      releaseAll drop (dueOf (f (l.answer k)).tree s)
        (l.onHold k fun x => { f x with tree := ((f x).tree.destroy s).2 }) := by
  rw [destroy, tree_answer_onHold h, onTree, onHold_onHold]
  rfl

theorem frame_answer_onTree (l : Ledger) (k : ContextId) (f : Tree Release → Tree Release) :
    ((l.onTree k f).answer k).frame = (l.answer k).frame := by
  unfold answer
  rw [hold_onTree, if_pos rfl]
  rcases l.hold k with _ | x <;> rfl

end Ledger

namespace Tree

/-- In an empty tree there is nowhere to go. -/
theorem enter_new (a : UInt32) (s : Index) :
    (Tree.new (ρ := Release) a).enter s = Tree.new a := by
  have hs := (shows_new (ρ := Release) a).mem_scopes_iff (i := s)
  simp only [Forest.scopes, List.nil_append, List.mem_singleton] at hs
  unfold enter
  split
  · rename_i h
    rw [hs.2 h]; rfl
  · rfl

end Tree

/-! ## Operations do what they say -/

namespace Run

variable {k : ContextId}

theorem settles_view {α : Type} (k : ContextId) (f : Context → α) : Settles (view k f) id :=
  (aside_view k f).settles fun _ => ⟨_, rfl⟩

theorem settles_onTree {α : Type} (k : ContextId) (f : Tree Release → α × Tree Release) :
    Settles (onTree k f) (·.onTree k fun t => (f t).2) := fun w =>
  .inr ⟨⟨_, (exec_onTree k f w).1⟩, (exec_onTree k f w).2⟩

theorem settles_pushScope? (k : ContextId) :
    Settles (pushScope? k) (·.onTree k fun t => t.push.2) := by
  refine (settles_view k _).before fun parent => (settles_onTree k Tree.push).after fun pushed => ?_
  split
  · exact (settles_log _).before fun _ => settles_pure _
  · exact settles_pure _

theorem moves_pushScope (k : ContextId) : Moves (pushScope k) (·.onTree k fun t => t.push.2) := by
  refine (settles_pushScope? k).then (G := id) fun pushed => ?_
  split
  · exact (aside_pure _).moves
  · exact (aside_throwing (aside_failNoMemory k)).moves

theorem moves_reserve (k : ContextId) : Moves (reserve k) (·.onTree k fun t => t.reserve.2) := by
  refine (settles_onTree k Tree.reserve).then (G := id) fun record => ?_
  split
  · exact (aside_pure _).moves
  · exact (aside_throwing (aside_failNoMemory k)).moves

theorem settles_enterScope (k : ContextId) (s : Index) :
    Settles (enterScope k s) (·.onTree k fun t => t.enter s) :=
  settles_onTree k _

theorem settles_popScope (k : ContextId) : Settles (popScope k) (·.onTree k Tree.pop) := by
  intro w
  have hview : ∀ {α : Type} (f : Context → α), (view k f).exec w = (.ok (f (w.context k)), w) :=
    fun _ => rfl
  rw [popScope, exec_bind_ok (hview _), exec_bind_ok (hview _)]
  rcases hp : (w.context k).tree.parent? (w.context k).tree.current with _ | parent
  · refine .inr ⟨⟨_, rfl⟩, (Ledger.onHold_eq_self fun x hx => ?_).symm⟩
    have hx' : (w.context k).hold = x := (hold_context w k).trans (Ledger.answer_of_hold hx)
    subst hx'
    simp only [Context.hold, Tree.pop, hp]
  · exact ((settles_onTree k fun t => ((), t.pop)).after fun _ =>
      (settles_log _).before fun _ => settles_pure _) w

theorem answer_popScope {w : World} {c : Context} (hc : w.context? k = some c) :
    ((popScope k).exec w).1 = .ok c.tree.current := by
  rw [popScope, exec_bind_ok (exec_view hc _), exec_bind_ok (exec_view hc _)]
  rcases c.tree.parent? c.tree.current with _ | parent <;> rfl

theorem settles_leaveScope (k : ContextId) (s : Index) :
    Settles (leaveScope k s) (Op.change k (.leave s)).step := by
  intro w
  have hview : (view k (·.tree.parent? s)).exec w = (.ok ((w.context k).tree.parent? s), w) := rfl
  have hans : (w.context k).tree = (w.ledger.answer k).tree := congrArg Hold.tree (hold_context w k)
  rw [leaveScope, exec_bind_ok hview, Op.step, Change.due, ← hans, Tree.leaving]
  have hleave : ∀ x, w.ledger.hold k = some x → x.tree = (w.context k).tree := by
    intro x hx
    rw [hans, Ledger.answer_of_hold hx]
  rcases hp : (w.context k).tree.parent? s with _ | parent
  · refine (settles_destroyScope k s w).imp id (And.imp_right fun hl => hl.trans ?_)
    show w.ledger.destroy k s = _
    rw [Ledger.destroy, ← hans, Ledger.onTree, Ledger.onHold_congr fun x hx => ?_]
    rw [Change.apply, Tree.leaving, hleave x hx, hp]
  · refine (((settles_enterScope k parent).bind fun _ => settles_destroyScope k s) w).imp id
      (And.imp_right fun hl => hl.trans ?_)
    show (w.ledger.onHold k fun h => { h with tree := h.tree.enter parent }).destroy k s = _
    rw [Ledger.destroy_onHold (Tree.enter_new _ parent), ← hans, Ledger.onHold_congr fun x hx => ?_]
    rw [Change.apply, Tree.leaving, hleave x hx, hp]

theorem settles_commit (k : ContextId) (record : Index) (r : Release) :
    Settles (commit k record r) (Op.change k (.commit record r)).step := by
  intro w
  obtain ⟨hr, hl⟩ := exec_onTree k (·.commit record r) w
  have hans : (w.context k).tree = (w.ledger.answer k).tree := congrArg Hold.tree (hold_context w k)
  rw [commit, exec_bind_ok (Prod.ext hr rfl), Op.step, Change.due, ← hans]
  have happly : (onTree k (·.commit record r) |>.exec w).2.ledger =
      w.ledger.onHold k (Change.apply (.commit record r)) := hl
  rw [← happly]
  rcases ((w.context k).tree.commit record r).1 with _ | _
  · exact ((settles_log _).before fun _ =>
      (settles_release settles_dropContext k ⟨record, r⟩)) _
  · exact .inr ⟨⟨_, rfl⟩, rfl⟩

theorem block?_eq (c : Context) (record : Index) :
    c.block? record =
      match c.tree.release? record with
      | some (.forget (.block b)) => some b
      | _ => none := by
  unfold Context.block? Context.payload?
  rcases c.tree.release? record with _ | ⟨⟩ | ⟨⟩ | ⟨⟩ | ⟨_ | _⟩ | ⟨⟩ | ⟨⟩ <;> rfl

theorem settles_setByte (k : ContextId) (record : Index) (position : Nat) (byte : UInt8) :
    Settles (setByte k record position byte) (Op.change k (.write record position byte)).step := by
  intro w
  have hview : (view k (·.block? record)).exec w = (.ok ((w.context k).block? record), w) := rfl
  rw [setByte, exec_bind_ok hview, block?_eq]
  have hstep : (Op.change k (.write record position byte)).step w.ledger =
      w.ledger.onTree k (·.write record position byte) := rfl
  have hwrite : ∀ x, w.ledger.hold k = some x → x.tree = (w.context k).tree := fun x hx =>
    congrArg Hold.tree ((Ledger.answer_of_hold hx).symm.trans (hold_context w k).symm)
  have hself : (∀ b, (w.context k).tree.release? record ≠ some (.forget (.block b))) →
      w.ledger.onTree k (·.write record position byte) = w.ledger := by
    intro hb
    refine Ledger.onHold_eq_self fun x hx => ?_
    show ({ x with tree := x.tree.write record position byte } : Hold) = x
    rw [Tree.write, hwrite x hx]
    split
    · rename_i b h; exact absurd h (hb b)
    · rw [← hwrite x hx]
  rw [hstep]
  split
  · rename_i b hb
    split at hb
    · rename_i b' hb'
      cases hb
      have hset := (settles_onTree k (·.commit record (.forget (.block (b.set position byte))))).after
        (fun _ => settles_pure (some (b.get? position))) w
      refine hset.imp id (And.imp_right fun hl => hl.trans (Ledger.onHold_congr fun x hx => ?_))
      show _ = ({ x with tree := x.tree.write record position byte } : Hold)
      rw [Tree.write, hwrite x hx, hb']
    · cases hb
  · rename_i hb
    split at hb
    · cases hb
    · rename_i hb'
      exact .inr ⟨⟨_, rfl⟩, (hself hb').symm⟩

theorem settles_failNoMemory (k : ContextId) : Settles (failNoMemory k) id := by
  refine Settles.before ?_ fun frame => ?_
  · refine (settles_view k _).before fun frame => ?_
    split
    · exact settles_pure _
    · exact (settles_log _).before fun _ => settles_abort _
  · split
    · exact (settles_view k _).before fun _ => settles_pure _
    · exact settles_pure _

theorem exec_pushScope? (k : ContextId) (w : World) :
    ((pushScope? k).exec w).1 = .ok (w.context k).tree.push.1 ∧
      ((pushScope? k).exec w).2.ledger = w.ledger.onTree k fun t => t.push.2 := by
  obtain ⟨hr, hl⟩ := exec_onTree k Tree.push w
  have hview : (view k (·.tree.current)).exec w = (.ok (w.context k).tree.current, w) := rfl
  rw [pushScope?, exec_bind_ok hview, exec_bind_ok (Prod.ext hr rfl)]
  rcases (w.context k).tree.push.1 with _ | b
  · exact ⟨rfl, hl⟩
  · exact ⟨rfl, (ledger_record _ _).trans hl⟩

/-- The scope that was pushed. -/
theorem exec_pushScope_ok {w w₁ : World} {c : Context} {s : Index} (hc : w.context? k = some c)
    (hexec : (pushScope k).exec w = (.ok s, w₁)) :
    c.tree.push.1 = some s := by
  have hcontext : w.context k = c := World.context_of_context? hc
  have hpush := (exec_pushScope? k w).1
  rw [hcontext] at hpush
  rw [pushScope, exec_bind_ok (Prod.ext hpush rfl)] at hexec
  rcases hp : c.tree.push.1 with _ | s'
  · rw [hp] at hexec
    exact absurd hexec (exec_throwing_ne_ok _ _ _ _)
  · rw [hp] at hexec
    cases hexec
    rfl

/-- A change of its tree leaves a context in the frame that it is in. -/
theorem frame_of_onTree {w w₁ : World} {f : Tree Release → Tree Release}
    (hl : w₁.ledger = w.ledger.onTree k f) : (w₁.context k).frame = (w.context k).frame := by
  have h₁ : (w₁.context k).frame = (w₁.ledger.answer k).frame :=
    congrArg Hold.frame (hold_context w₁ k)
  have h₀ : (w.context k).frame = (w.ledger.answer k).frame :=
    congrArg Hold.frame (hold_context w k)
  rw [h₁, hl, Ledger.frame_answer_onTree, h₀]

/-- A protected call remembers the current scope and the frame around it, and
    its boundary is a new scope; without room for one it reports that at once. -/
theorem exec_enterCall (k : ContextId) (detail : Detail) (w : World) :
    ((enterCall k detail).exec w).1 = .error .abort ∨
      (match (w.context k).tree.push.1 with
        | some b => ((enterCall k detail).exec w).1 =
            .ok (.ok ⟨(w.context k).tree.current, b, (w.context k).depth + 1, (w.context k).frame⟩)
        | none => ∃ report, ((enterCall k detail).exec w).1 = .ok (.error report)) ∧
      ((enterCall k detail).exec w).2.ledger = (Op.change k (.enter detail)).step w.ledger := by
  obtain ⟨hr, hl⟩ := exec_pushScope? k w
  have hview : (view k (·.tree.current)).exec w = (.ok (w.context k).tree.current, w) := rfl
  have hstep : (Op.change k (.enter detail)).step w.ledger =
      w.ledger.onHold k (Change.apply (.enter detail)) := rfl
  have hctx : ∀ x, w.ledger.hold k = some x → (w.context k).hold = x := fun x hx =>
    (hold_context w k).trans (Ledger.answer_of_hold hx)
  obtain ⟨w₁, hw₁⟩ : ∃ w₁, (pushScope? k).exec w = (.ok (w.context k).tree.push.1, w₁) :=
    ⟨_, Prod.ext hr rfl⟩
  rw [hw₁] at hl
  rw [enterCall, exec_bind_ok hview, exec_bind_ok hw₁, hstep]
  rcases hp : (w.context k).tree.push with ⟨_ | b, t⟩
  · have hsame : w.ledger.onHold k (Change.apply (.enter detail)) = w₁.ledger := by
      rw [hl]
      refine Ledger.onHold_congr fun x hx => ?_
      have hpush : x.tree.push = (none, t) := by rw [← hctx x hx]; exact hp
      show _ = ({ x with tree := x.tree.push.2 } : Hold)
      rw [Change.apply, hpush, Tree.push_none hpush]
    rw [hsame]
    rcases settles_failNoMemory k w₁ with h | ⟨⟨f, hf⟩, hl₂⟩
    · left
      rw [exec_bind_error (Prod.ext h rfl)]
    · right
      rw [exec_bind_ok (Prod.ext hf rfl)]
      exact ⟨⟨_, rfl⟩, hl₂⟩
  · have hframe := frame_of_onTree hl
    have hdepth : (w₁.context k).depth = (w.context k).depth := by
      rw [Context.depth, hframe, Context.depth]
    have hentered : w.ledger.onHold k (Change.apply (.enter detail)) =
        w₁.ledger.onHold k fun h =>
          { h with frame := some ⟨b, detail, (w₁.context k).depth + 1⟩ } := by
      rw [hl, Ledger.onTree, Ledger.onHold_onHold]
      refine Ledger.onHold_congr fun x hx => ?_
      have hpush : x.tree.push = (some b, t) := by rw [← hctx x hx]; exact hp
      have hx' : x.depth = (w₁.context k).depth := by rw [hdepth, ← hctx x hx]; rfl
      simp only [Change.apply, hpush, hx', Function.comp]
    rw [hentered]
    refine .inr ⟨?_, (ledger_record _ _).trans (ledger_onContext
      (f := fun c : Context =>
        ((), { c with frame := some ⟨b, detail, (w₁.context k).depth + 1⟩ }))
      (fun _ => rfl) w₁ k)⟩
    show _ = Except.ok (Except.ok (ProtectedCall.mk _ _ _ _))
    rw [← hframe, ← hdepth]
    rfl

theorem moves_enterCall (k : ContextId) (detail : Detail) :
    Moves (enterCall k detail) (Op.change k (.enter detail)).step := fun w =>
  (exec_enterCall k detail w).imp id And.right

/-- The way back into the frame and the scope around a call. -/
def Ledger.back (k : ContextId) (call : ProtectedCall) (l : Ledger) : Ledger :=
  l.onHold k fun h => ⟨h.tree.enter call.resume, call.outer⟩

theorem Moves.back {α : Type} {rest : Run α} {G : Ledger → Ledger} (hrest : Moves rest G)
    (k : ContextId) (call : ProtectedCall) :
    Moves (do
        onContext k fun c => ((), { c with frame := call.outer })
        enterScope k call.resume
        rest)
      (G ∘ Ledger.back k call) := by
  have hframe := settles_onContext (f := fun c : Context => ((), { c with frame := call.outer }))
    (g := fun h => { h with frame := call.outer }) (fun _ => rfl) k
  have h := hframe.then fun _ => (settles_enterScope k call.resume).then fun _ => hrest
  refine fun w => (h w).imp id fun hl => hl.trans (congrArg G ?_)
  exact Ledger.onHold_onHold _ k _ _

theorem moves_leaveCall {α : Type} (k : ContextId) (call : ProtectedCall) (how : Exit α) :
    Moves (leaveCall k call how) (Op.change k (.exit call (how.map fun _ => ()))).step := by
  have hdestroy : (·.destroy k call.boundary) ∘ Ledger.back k call = fun l => .releaseAll .drop
      (Ledger.dueOf ((l.answer k).tree.enter call.resume) call.boundary)
      (l.onHold k fun h =>
        ⟨((h.tree.enter call.resume).destroy call.boundary).2, call.outer⟩) :=
    funext fun l => Ledger.destroy_onHold (Tree.enter_new _ call.resume) call.boundary
  cases how with
  | returned value =>
    exact ((settles_log _).before fun _ => settles_pure _).moves.back k call
  | failed f =>
    have hrest := (settles_log (.unwinding call.depth f.code)).then fun _ =>
      ((settles_destroyScope k call.boundary).after fun _ =>
        settles_pure (Except.error f.report : Except Report α)).moves
    refine Moves.congr (Moves.back ?_ k call) hdestroy
    dsimp only
    split
    · exact (settles_log _).then fun _ => hrest
    · exact hrest
  | panicked p =>
    have hrest := (settles_log (.unwindingAfterPanic call.depth)).then fun _ =>
      (settles_destroyScope k call.boundary).then (G := id) fun _ =>
        (aside_throw (α := Except Report α) (.panic p)).moves
    exact (hrest.back k call).congr hdestroy

theorem settles_newContext (program : String) :
    Settles (newContext program) (Op.newContext program).step := by
  intro w
  refine .inr ⟨⟨_, rfl⟩, Ledger.ext_of (Array.size_push _) (fun j => ?_) rfl⟩
  show Option.map Context.hold
    (World.context? { w with contexts := w.contexts.push _ } j) = _
  unfold World.context?
  rw [Array.getElem?_push]
  show _ = if j = w.contexts.size then some (Context.new j "").hold
    else (w.contexts[j]?.join).map Context.hold
  split
  · rename_i hj; subst hj; rfl
  · rfl

end Run

/-- An operation does to the ledger what it says, unless the process ends. -/
theorem Op.moves : ∀ op : Op, Run.Moves op.run op.step
  | newContext program => (Run.settles_newContext program).moves.discard
  | dropContext k => (Run.settles_dropContext k).moves.discard
  | change k .push => (Run.moves_pushScope k).discard
  | change k .pop => (Run.settles_popScope k).moves.discard
  | change k (.destroy s) => (Run.settles_destroyScope k s).moves.discard
  | change k (.leave s) => (Run.settles_leaveScope k s).moves.discard
  | change k .reserve => (Run.moves_reserve k).discard
  | change k (.commit record r) => (Run.settles_commit k record r).moves.discard
  | change k (.write record position byte) =>
    (Run.settles_setByte k record position byte).moves.discard
  | change k (.enter detail) => (Run.moves_enterCall k detail).discard
  | change k (.exit call how) => by
    have h := (Run.moves_leaveCall k call how).discard
    rwa [show how.map (fun _ => ()) = how by cases how <;> rfl] at h

end ScopedResources
