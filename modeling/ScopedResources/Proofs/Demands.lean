/-
  What can be asked of a context, and what it answers.

  A context answers a demand from what it has itself: its tree, its innermost frame and
  its name.  Whatever else is in the world makes no difference to the answer, to what
  becomes of the context, and to what is due.

  * `Demand` is something to ask of a context and `Reply` an answer; `Demand.run` asks a
    context.
  * `Demand.answer`, `Demand.next` and `Demand.due` are the answer, the context after
    it and what is due, from the context alone.
  * `Demand.exec`: in every world a context that is alive answers so.
  * `Demand.answer_rename` and the lemmas after it: renamed identities are renamed in
    the answers, and make no other difference.
-/
import ScopedResources.Proofs.Contexts
import ScopedResources.Proofs.Lifetime
import ScopedResources.Proofs.Made
import ScopedResources.Proofs.Renaming
import ScopedResources.Proofs.Structured

namespace ScopedResources

/-- Something to ask of a context. -/
inductive Demand where
  | change (c : Change)
  /-- The program gets another name. -/
  | setName (program : String)
  /-- A failure is made. -/
  | fail (code : Int) (f : Format)
  /-- The failure for exhausted memory is made. -/
  | failNoMemory

/-- What a context answers. -/
inductive Reply where
  | done
  | index (i : Index)
  | flag (b : Bool)
  | byte (b : Option (Option UInt8))
  | call (c : Except Report ProtectedCall)
  | report (r : Except Report Unit)
  | failure (f : Failure)

/-- A change as a run that gives the answer. -/
def Change.ask (k : ContextId) : Change → Run Reply
  | push => .index <$> Run.pushScope k
  | pop => .index <$> Run.popScope k
  | destroy scope => .flag <$> Run.destroyScope k scope
  | leave scope => .flag <$> Run.leaveScope k scope
  | reserve => .index <$> Run.reserve k
  | commit record release => (fun _ => .done) <$> Run.commit k record release
  | write record position byte => .byte <$> Run.setByte k record position byte
  | enter detail => .call <$> Run.enterCall k detail
  | exit call how => .report <$> Run.leaveCall k call how

/-- The demand as a run. -/
def Demand.run (k : ContextId) : Demand → Run Reply
  | change c => c.ask k
  | setName program =>
    (fun _ => .done) <$> Run.onContext k fun c => ((), { c with program := program })
  | fail code f => .failure <$> Run.fail k code f
  | failNoMemory => .failure <$> Run.failNoMemory k

/-! ## Answers -/

/-- The failure for exhausted memory, if a call is active to take it. -/
def Context.noMemory? (c : Context) : Option Failure :=
  c.frame.map fun frame => ⟨Errno.noMemory, some noMemoryMessage,
    match frame.detail with
      | .message => some c.program
      | .code => none, frame.depth⟩

/-- A failure with a code and a message, if a call is active to take it. -/
def Context.failure? (c : Context) (code : Int) (f : Format) : Option Failure :=
  c.frame.map fun frame =>
    match frame.detail with
      | .message => ⟨code, some f.text, some c.program, frame.depth⟩
      | .code => ⟨code, none, none, frame.depth⟩

/-- Why a run stops that was to raise a failure. -/
def Stop.raising : Option Failure → Stop
  | some f => .failure f
  | none => .abort

/-- What a new node is answered with. -/
def Context.grown (c : Context) : Option Index → Except Stop Reply
  | some i => .ok (.index i)
  | none => .error (.raising c.noMemory?)

/-- What is answered where a failure is made. -/
def Reply.failing : Option Failure → Except Stop Reply
  | some f => .ok (.failure f)
  | none => .error .abort

/-- What a context answers to a change. -/
def Change.answer (c : Context) : Change → Except Stop Reply
  | push => c.grown c.tree.push.1
  | pop => .ok (.index c.tree.current)
  | destroy scope | leave scope => .ok (.flag (c.tree.isScope scope))
  | reserve => c.grown c.tree.reserve.1
  | commit _ _ => .ok .done
  | write record position _ => .ok (.byte ((c.block? record).map (·.get? position)))
  | enter _ =>
    match c.tree.push.1, c.noMemory? with
    | some boundary, _ => .ok (.call (.ok ⟨c.tree.current, boundary, c.depth + 1, c.frame⟩))
    | none, some f => .ok (.call (.error f.report))
    | none, none => .error .abort
  | exit _ (.returned ()) => .ok (.report (.ok ()))
  | exit _ (.failed f) => .ok (.report (.error f.report))
  | exit _ (.panicked p) => .error (.panic p)

namespace Demand

/-- What a context answers to a demand. -/
def answer (c : Context) : Demand → Except Stop Reply
  | change ch => ch.answer c
  | setName _ => .ok .done
  | fail code f => Reply.failing (c.failure? code f)
  | failNoMemory => Reply.failing c.noMemory?

/-- The context after it has answered, and after all that is due has run. -/
def next (c : Context) : Demand → Context
  | change ch =>
    let h := ch.apply c.hold
    ⟨h.tree, h.frame, (restored (ch.due c.hold)).getLastD c.program⟩
  | setName program => { c with program := program }
  | fail _ _ | failNoMemory => c

/-- What is due when a context has answered. -/
def due (c : Context) : Demand → List (Due Release)
  | change ch => ch.due c.hold
  | setName _ | fail _ _ | failNoMemory => []

end Demand

variable {w w' : World} {k : ContextId} {c : Context}

namespace Run

theorem exec_failNoMemory (hc : w.context? k = some c) :
    ((failNoMemory k).exec w).1 = c.noMemory?.elim (.error .abort) .ok := by
  obtain ⟨tree, frame, program⟩ := c
  rw [failNoMemory, activeFrame, bind_assoc, exec_bind_ok (exec_view hc _), Context.noMemory?]
  rcases frame with _ | ⟨boundary, _ | _, depth⟩
  · rfl
  · rfl
  · refine (congrArg Prod.fst (exec_bind_ok (exec_pure _ w))).trans ?_
    exact congrArg Prod.fst (exec_bind_ok (exec_view hc _))

theorem exec_render (f : Format) (w : World) : ∃ w₁, (render f).exec w = (.ok f.text, w₁) ∧
    w₁.contexts = w.contexts := by
  cases f with
  | literal text => exact ⟨w, rfl, rfl⟩
  | rendered written refused => exact ⟨_, rfl, rfl⟩

theorem exec_fail (hc : w.context? k = some c) (code : Int) (f : Format) :
    ((fail k code f).exec w).1 = (c.failure? code f).elim (.error .abort) .ok := by
  obtain ⟨tree, frame, program⟩ := c
  rw [fail, activeFrame, bind_assoc, exec_bind_ok (exec_view hc _), Context.failure?]
  rcases frame with _ | ⟨boundary, _ | _, depth⟩
  · rfl
  · rfl
  · obtain ⟨w₁, hrender, hcontexts⟩ := exec_render f w
    have hc₁ := hc
    rw [World.context?, ← hcontexts] at hc₁
    refine (congrArg Prod.fst (exec_bind_ok (exec_pure _ w))).trans ?_
    refine (congrArg Prod.fst (exec_bind_ok hrender)).trans ?_
    exact congrArg Prod.fst (exec_bind_ok (exec_view hc₁ _))

/-- A run stops with the failure that it was to raise, or ends the process. -/
theorem exec_raising {α : Type} {x : Run Failure} {made : Option Failure}
    (hx : (x.exec w).1 = made.elim (.error .abort) .ok) :
    ((throwing x : Run α).exec w).1 = .error (.raising made) := by
  obtain ⟨w', hx⟩ := exists_exec_eq hx
  rcases made with _ | f
  · rw [throwing, exec_bind_error hx]
    rfl
  · rw [throwing, exec_bind_ok hx]
    rfl

/-- A run that makes a failure for exhausted memory stops with it. -/
theorem exec_refused {α : Type} (hc : w.context? k = some c) :
    ((throwing (failNoMemory k) : Run α).exec w).1 = .error (.raising c.noMemory?) :=
  exec_raising (exec_failNoMemory hc)

/-- What the host refuses is a failure, with what was tried and the error. -/
theorem result_granted_error {α : Type} (hc : w.context? k = some c) {what : Run String}
    {text : String} (hwhat : what.exec w = (.ok text, w)) (e : Errno) :
    ((granted k what (.error e) : Run α).exec w).1 = .error (.raising (c.failure? e
      (.rendered (text ++ (": " ++ (IoError.os e).message)) false))) := by
  rw [granted, exec_bind_ok hwhat]
  exact exec_raising (exec_fail hc e (.rendered (text ++ (": " ++ (IoError.os e).message)) false))

/-- Where there is no room for a node, nothing happens. -/
theorem exec_onTree_full {f : Tree Release → Option Index × Tree Release} (hc : w.context? k = some c)
    (hf : f c.tree = (none, c.tree)) : (onTree k f).exec w = (.ok none, w) := by
  have hcontext : w.context k = c := World.context_of_context? hc
  rw [exec_onTree_self (by rw [hcontext, hf]), hcontext, hf]

theorem exec_pushScope?_full (hc : w.context? k = some c) (hp : c.tree.push.1 = none) :
    (pushScope? k).exec w = (.ok none, w) := by
  have hpush : c.tree.push = (none, c.tree) := Prod.ext hp (Tree.push_none (Prod.ext hp rfl))
  rw [pushScope?, exec_bind_ok (exec_view hc _), exec_bind_ok (exec_onTree_full hc hpush)]
  rfl

theorem answer_pushScope (hc : w.context? k = some c) :
    ((pushScope k).exec w).1.map .index = c.grown c.tree.push.1 := by
  have hcontext : w.context k = c := World.context_of_context? hc
  rcases hp : c.tree.push.1 with _ | i
  · rw [pushScope, exec_bind_ok (exec_pushScope?_full hc hp), exec_refused hc]
    rfl
  · have hpushed := (exec_pushScope? k w).1
    rw [hcontext, hp] at hpushed
    rw [pushScope, exec_bind_ok (Prod.ext hpushed rfl)]
    rfl

theorem answer_reserve (hc : w.context? k = some c) :
    ((reserve k).exec w).1.map .index = c.grown c.tree.reserve.1 := by
  rcases hp : c.tree.reserve.1 with _ | i
  · have hreserve : c.tree.reserve = (none, c.tree) :=
      Prod.ext hp (Tree.reserve_none (Prod.ext hp rfl))
    rw [reserve, exec_bind_ok (exec_onTree_full hc hreserve), exec_refused hc]
    rfl
  · obtain ⟨w₁, htree, -, -⟩ := exec_onTree_context hc Tree.reserve
    rw [reserve, exec_bind_ok htree, hp]
    rfl

theorem answer_setByte (hc : w.context? k = some c) (record : Index) (position : Nat) (byte : UInt8) :
    ((setByte k record position byte).exec w).1 =
      .ok ((c.block? record).map (·.get? position)) := by
  rw [setByte, exec_bind_ok (exec_view hc _)]
  rcases c.block? record with _ | block <;> rfl

theorem answer_enterCall (hc : w.context? k = some c) (detail : Detail) :
    ((enterCall k detail).exec w).1 = .error .abort ∨
      ((enterCall k detail).exec w).1.map .call = Change.answer c (.enter detail) := by
  have hcontext : w.context k = c := World.context_of_context? hc
  rcases hp : c.tree.push.1 with _ | b
  · have h := exec_failNoMemory hc
    rw [Change.answer, hp, enterCall, exec_bind_ok (exec_view hc _),
      exec_bind_ok (exec_pushScope?_full hc hp)]
    dsimp only
    rcases hf : (failNoMemory k).exec w with ⟨e | f, w₁⟩ <;> rw [hf] at h <;>
      rcases hn : c.noMemory? with _ | f' <;> rw [hn] at h <;> cases h
    · rw [exec_bind_error hf]
      exact .inl rfl
    · rw [exec_bind_ok hf]
      exact .inr rfl
  · refine (exec_enterCall k detail w).imp id fun h => ?_
    have hanswer := h.1
    rw [hcontext, hp] at hanswer
    rw [hanswer, Change.answer, hp]
    rfl

/-- What a protected call reports when its body has failed. -/
theorem result_leaveCall_failed {α : Type} {call : ProtectedCall} {f : Failure}
    {r : Except Stop (Except Report α)} (hexec : (leaveCall k call (.failed f)).exec w = (r, w'))
    (hr : r ≠ .error .abort) : r = .ok (.error f.report) := by
  have hframe := settles_onContext (f := fun c : Context => ((), { c with frame := call.outer }))
    (g := fun h => { h with frame := call.outer }) (fun _ => rfl) k
  obtain ⟨_, w₁, -, hexec⟩ := hframe.bind_ok hexec hr
  obtain ⟨_, w₂, -, hexec⟩ := (settles_enterScope k call.resume).bind_ok hexec hr
  have hrest : ∀ w₂, (do
      log (.unwinding call.depth f.code)
      let _ ← destroyScope k call.boundary
      return .error f.report : Run (Except Report α)).exec w₂ = (r, w') →
        r = .ok (.error f.report) := by
    intro w₂ hexec
    obtain ⟨_, w₃, -, hexec⟩ := (settles_log _).bind_ok hexec hr
    obtain ⟨_, w₄, -, hexec⟩ := (settles_destroyScope k call.boundary).bind_ok hexec hr
    cases hexec
    rfl
  dsimp only at hexec
  split at hexec
  · obtain ⟨_, w₃, -, hexec⟩ := (settles_log _).bind_ok hexec hr
    exact hrest w₃ hexec
  · exact hrest w₂ hexec

/-- A protected call ends in the way that its body has ended. -/
theorem result_leaveCall {call : ProtectedCall} {how : Exit Unit} {r : Except Stop (Except Report Unit)}
    (hexec : (leaveCall k call how).exec w = (r, w')) (hr : r ≠ .error .abort) :
    r.map .report = Change.answer c (.exit call how) := by
  have hleave := hexec
  have hframe := settles_onContext (f := fun c : Context => ((), { c with frame := call.outer }))
    (g := fun h => { h with frame := call.outer }) (fun _ => rfl) k
  obtain ⟨_, w₁, -, hexec⟩ := hframe.bind_ok hexec hr
  obtain ⟨_, w₂, -, hexec⟩ := (settles_enterScope k call.resume).bind_ok hexec hr
  cases how with
  | returned value => cases hexec; rfl
  | failed f => rw [result_leaveCall_failed hleave hr]; rfl
  | panicked p =>
    obtain ⟨_, w₃, -, hexec⟩ := (settles_log _).bind_ok hexec hr
    obtain ⟨_, w₄, -, hexec⟩ := (settles_destroyScope k call.boundary).bind_ok hexec hr
    cases hexec
    rfl

end Run

/-! ## Demands in a world -/

/-- A change and its answer. -/
theorem Change.exec_ask (ch : Change) (k : ContextId) (w : World) :
    (ch.run k).exec w = (((ch.ask k).exec w).1.map fun _ => (), ((ch.ask k).exec w).2) := by
  have hmap : ∀ {α : Type} (f : α → Reply) (x : Run α), (discard x).exec w =
      (((f <$> x).exec w).1.map fun _ => (), ((f <$> x).exec w).2) := by
    intro α f x
    rw [Run.exec_discard, Run.exec_map]
    rcases x.exec w with ⟨e | a, w'⟩ <;> rfl
  cases ch <;> exact hmap _ _

theorem Change.answer_of_ask (ch : Change) {r : Except Stop Reply} (hc : w.context? k = some c)
    (hexec : (ch.ask k).exec w = (r, w')) (hr : r ≠ .error .abort) : r = ch.answer c := by
  have hcontext : w.context k = c := World.context_of_context? hc
  -- an answer is the result of the operation, wrapped up
  have hask : ∀ {α : Type} {f : α → Reply} {x : Run α} {a : Except Stop Reply},
      (f <$> x).exec w = (r, w') → (x.exec w).1 = .error .abort ∨ (x.exec w).1.map f = a → r = a := by
    intro α f x a hexec ha
    rw [Run.exec_map] at hexec
    have hfst : (x.exec w).1.map f = r := congrArg Prod.fst hexec
    rcases ha with ha | ha
    · rw [ha] at hfst
      exact absurd hfst.symm hr
    · exact hfst.symm.trans ha
  have hscope : ∀ {s : Index} {x : Run Bool}, (Reply.flag <$> x).exec w = (r, w') →
      x.Answers w ((w.context k).tree.isScope s) → r = .ok (.flag (c.tree.isScope s)) := by
    intro s x hexec hx
    refine hask hexec (hx.result.imp id fun h => ?_)
    rw [h, hcontext]
    rfl
  cases ch with
  | push => exact hask hexec (.inr (Run.answer_pushScope hc))
  | pop => exact hask hexec (.inr (congrArg (Except.map _) (Run.answer_popScope hc)))
  | destroy s => exact hscope hexec (Run.answers_destroyScope k s w)
  | leave s => exact hscope hexec (Run.answers_leaveScope k s w)
  | reserve => exact hask hexec (.inr (Run.answer_reserve hc))
  | commit i release =>
    refine hask hexec ((Run.settles_commit k i release w).imp id fun h => ?_)
    obtain ⟨⟨_, h⟩, -⟩ := h
    rw [h]
    rfl
  | write i position byte =>
    exact hask hexec (.inr (congrArg (Except.map _) (Run.answer_setByte hc i position byte)))
  | enter detail => exact hask hexec (Run.answer_enterCall hc detail)
  | exit call how =>
    by_cases habort : ((Run.leaveCall k call how).exec w).1 = .error .abort
    · exact hask hexec (.inl habort)
    · exact hask hexec (.inr (Run.result_leaveCall (Prod.ext rfl rfl) habort))

/-- What is known when a context has answered a demand, if the process goes on. -/
structure Answered (q : Demand) (k : ContextId) (c : Context) (w : World) (r : Except Stop Reply)
    (w' : World) : Prop where
  answer : r = q.answer c
  own : ∀ c', w'.context? k = some c' → c' = q.next c
  /-- The other contexts stay as they are, or are gone. -/
  other : ∀ j c', j ≠ k → w'.context? j = some c' → w.context? j = some c'
  inTurn : ∃ new, w'.journal.ran = new.reverse ++ w.journal.ran ∧ Ledger.InTurn (q.due c) new
  size : w'.contexts.size = w.contexts.size
  sound : w.ledger.Sound → w'.ledger.Sound

theorem Change.answered (ch : Change) {r : Except Stop Reply} (hc : w.context? k = some c)
    (hexec : (ch.ask k).exec w = (r, w')) (hr : r ≠ .error .abort) :
    Answered (.change ch) k c w r w' := by
  have hrun : (Op.change k ch).run.exec w = (r.map fun _ => (), w') := by
    rw [Op.run, ch.exec_ask, hexec]
  have hr' : (r.map fun _ => ()) ≠ .error .abort := Run.map_ne_abort hr
  have hledger := (Op.change k ch).ledger_of_exec hrun hr'
  have hsize : w'.contexts.size = w.contexts.size :=
    (congrArg Ledger.count hledger).trans (Ledger.outlasts_releaseAll Ledger.outlasts_drop _ _).count
  refine ⟨ch.answer_of_ask hc hexec hr, fun c' hc' => ?_, fun j c' hj hc' => ?_,
    ran_change hc hledger, hsize, fun hl => by rw [hledger]; exact hl.step _⟩
  · obtain ⟨hhold, hprogram⟩ := ch.context?_of_own hc hrun hr' hc'
    exact Context.eq_of_hold hhold hprogram
  · refine (Op.change k ch).context?_of_other (Op.finds_change (Option.isSome_of_eq_some hc) ch)
      hrun hr' ?_ ?_ hc'
    · rintro change ⟨⟩
      exact hj rfl
    · rw [← hsize]
      exact Run.lt_size_of_context? hc'

/-- A context is what it holds, and its name. -/
theorem World.Still.context?_eq (hs : w.Still w') (hl : w'.ledger = w.ledger) (j : ContextId) :
    w'.context? j = w.context? j := by
  have hhold : (w'.context? j).map Context.hold = (w.context? j).map Context.hold :=
    congrFun (congrArg Ledger.hold hl) j
  have hprogram := hs.program j
  rcases h' : w'.context? j with _ | c' <;> rcases h : w.context? j with _ | c <;>
    rw [h', h] at hhold hprogram
  · cases hhold
  · cases hhold
  · rw [Context.eq_of_hold (Option.some.inj hhold) (Option.some.inj hprogram)]

/-- A failure is made, and nothing changes. -/
theorem Answered.failing {q : Demand} {x : Run Failure} {f : Option Failure}
    (hc : w.context? k = some c) (hx : (x.exec w).1 = f.elim (.error .abort) .ok)
    (haside : Run.Aside x) (hcalm : Run.Calm x) (hanswer : q.answer c = Reply.failing f)
    (hnext : q.next c = c) (hdue : q.due c = []) :
    Answered q k c w ((x.exec w).1.map .failure) (x.exec w).2 := by
  have hledger := haside w
  have hsame := (hcalm w).context?_eq hledger
  refine ⟨?_, fun c' hc' => ?_, fun j c' hj hc' => ?_, ⟨[], congrArg Ledger.ran hledger, ?_⟩,
    congrArg Ledger.count hledger, fun hl => by rw [hledger]; exact hl⟩
  · rw [hx, hanswer]
    rcases f with _ | failure <;> rfl
  · rw [hsame k, hc] at hc'
    rw [hnext]
    exact (Option.some.inj hc').symm
  · rwa [hsame j] at hc'
  · rw [hdue]
    exact .nil

/-- A context that is alive answers a demand by itself. -/
theorem Demand.exec (q : Demand) {r : Except Stop Reply} (hc : w.context? k = some c)
    (hexec : (q.run k).exec w = (r, w')) (hr : r ≠ .error .abort) : Answered q k c w r w' := by
  cases q with
  | change ch => exact ch.answered hc hexec hr
  | setName program =>
    rw [run, Run.exec_map] at hexec
    obtain ⟨rfl, rfl⟩ := Prod.mk.inj hexec
    have hrun := Run.exec_onContext k (fun c => ((), { c with program := program })) w
    obtain ⟨hledger, -, -, hcontext⟩ := Run.exec_renamed hrun
    rw [hrun]
    refine ⟨rfl, fun c' hc' => ?_, fun j c' hj hc' => ?_, ⟨[], congrArg Ledger.ran hledger, .nil⟩,
      congrArg Ledger.count hledger, fun hl => by rw [hledger]; exact hl⟩
    · rw [hcontext, if_pos rfl, hc] at hc'
      exact (Option.some.inj hc').symm
    · rw [hcontext, if_neg hj] at hc'
      exact hc'
  | fail code f =>
    rw [run, Run.exec_map] at hexec
    obtain ⟨rfl, rfl⟩ := Prod.mk.inj hexec
    exact .failing hc (Run.exec_fail hc code f) (Run.aside_fail k code f) (Run.calm_fail k code f)
      rfl rfl rfl
  | failNoMemory =>
    rw [run, Run.exec_map] at hexec
    obtain ⟨rfl, rfl⟩ := Prod.mk.inj hexec
    exact .failing hc (Run.exec_failNoMemory hc) (Run.aside_failNoMemory k)
      (Run.calm_failNoMemory k) rfl rfl rfl

/-! ## Other identities -/

def Demand.rename (θ : Renaming) : Demand → Demand
  | change c => .change (c.rename θ)
  | setName program => .setName program
  | fail code f => .fail code f
  | failNoMemory => .failNoMemory

def Reply.rename (θ : Renaming) : Reply → Reply
  | index i => .index (i.rename θ)
  | call c => .call (c.map (·.rename θ))
  | done => .done
  | flag b => .flag b
  | byte b => .byte b
  | report r => .report r
  | failure f => .failure f

variable {θ : Renaming}

namespace Context

@[simp] theorem hold_rename (c : Context) : (c.rename θ).hold = c.hold.rename θ := rfl

@[simp] theorem tree_rename (c : Context) : (c.rename θ).tree = c.tree.rename θ := rfl

theorem depth_rename (c : Context) : (c.rename θ).depth = c.depth := by
  obtain ⟨tree, _ | frame, program⟩ := c <;> rfl

theorem noMemory?_rename (c : Context) : (c.rename θ).noMemory? = c.noMemory? := by
  obtain ⟨tree, _ | frame, program⟩ := c <;> rfl

theorem failure?_rename (c : Context) (code : Int) (f : Format) :
    (c.rename θ).failure? code f = c.failure? code f := by
  obtain ⟨tree, _ | frame, program⟩ := c <;> rfl

theorem payload?_rename (c : Context) (i : Index) :
    (c.rename θ).payload? (i.rename θ) = c.payload? i := by
  rw [payload?, payload?, tree_rename, Tree.release?_rename]
  rcases c.tree.release? i with _ | ⟨⟩ | ⟨⟩ | ⟨⟩ | ⟨⟩ | ⟨⟩ | ⟨⟩ <;> rfl

theorem block?_rename (c : Context) (i : Index) : (c.rename θ).block? (i.rename θ) = c.block? i := by
  rw [block?, block?, payload?_rename]

theorem grown_rename (c : Context) (i : Option Index) :
    (c.rename θ).grown (i.map (·.rename θ)) = (c.grown i).map (·.rename θ) := by
  cases i with
  | none => rw [Option.map_none, grown, noMemory?_rename]; rfl
  | some i => rfl

end Context

theorem Change.answer_rename (ch : Change) (c : Context) :
    (ch.rename θ).answer (c.rename θ) = (ch.answer c).map (·.rename θ) := by
  have hpush : (c.rename θ).tree.push.1 = c.tree.push.1.map (·.rename θ) :=
    congrArg Prod.fst (Tree.push_rename c.tree)
  cases ch with
  | push =>
    rw [rename, answer, answer, hpush, Context.grown_rename]
  | pop | commit => rfl
  | destroy s => exact congrArg (fun b => Except.ok (Reply.flag b)) Tree.isScope_rename
  | leave s => exact congrArg (fun b => Except.ok (Reply.flag b)) Tree.isScope_rename
  | reserve =>
    rw [rename, answer, answer, Context.tree_rename, Tree.reserve_rename, Context.grown_rename]
  | write i position byte =>
    rw [rename, answer, answer, Context.block?_rename]
    rfl
  | enter detail =>
    rw [rename, answer, answer, hpush, Context.noMemory?_rename, Context.depth_rename]
    rcases c.tree.push.1 with _ | boundary
    · rcases c.noMemory? with _ | f <;> rfl
    · rfl
  | exit call how => cases how <;> rfl

theorem Reply.failing_rename (f : Option Failure) :
    (failing f).map (·.rename θ) = failing f := by
  cases f <;> rfl

namespace Demand

theorem answer_rename (q : Demand) (c : Context) :
    (q.rename θ).answer (c.rename θ) = (q.answer c).map (·.rename θ) := by
  cases q with
  | change ch => exact ch.answer_rename c
  | setName program => rfl
  | fail code f =>
    rw [rename, answer, answer, Context.failure?_rename, Reply.failing_rename]
  | failNoMemory => rw [rename, answer, answer, Context.noMemory?_rename, Reply.failing_rename]

theorem due_rename (q : Demand) (c : Context) :
    (q.rename θ).due (c.rename θ) = (q.due c).map (·.rename θ) := by
  cases q with
  | change ch => exact ch.due_rename c.hold
  | setName | fail | failNoMemory => rfl

theorem next_rename (q : Demand) (c : Context) :
    (q.rename θ).next (c.rename θ) = (q.next c).rename θ := by
  cases q with
  | change ch =>
    rw [rename, next, next, Context.hold_rename, ch.apply_rename, ch.due_rename, restored_rename]
    rfl
  | setName | fail | failNoMemory => rfl

end Demand

end ScopedResources
