/-
  Protected calls.

  A protected call pushes a boundary scope and runs a body.  If the body
  succeeds, the scope that was current before is current again and the
  boundary stays alive under it.  If the body fails, the boundary is torn down
  and the failure is reported; if the body panics, the boundary is torn down
  and the panic goes on.

  * `Run.enterCall` and `Run.leaveCall` are the two ends of a call.
  * `Run.protect` is the call around a body.
-/
import ScopedResources.Run.Scope

namespace ScopedResources

/-- What a protected call keeps while its body runs. -/
structure ProtectedCall where
  /-- The scope that was current before the call. -/
  resume : Index
  boundary : Index
  depth : Nat
  /-- The frame of the call around this one. -/
  outer : Option Frame
  deriving DecidableEq, Repr

namespace Run

/-- Begins a protected call; where there is no room for its boundary, the call
    fails at once. -/
def enterCall (k : ContextId) (detail : Detail) : Run (Except Report ProtectedCall) := do
  let resume ← view k (·.tree.current)
  match ← pushScope? k with
  | none => return .error (← failNoMemory k).report
  | some boundary =>
    let outer ← view k (·.frame)
    let depth := (← view k (·.depth)) + 1
    onContext k fun c => ((), { c with frame := some ⟨boundary, detail, depth⟩ })
    log (.entered depth boundary)
    return .ok { resume, boundary, depth, outer }

/-- Ends a protected call in the way that its body ended. -/
def leaveCall (k : ContextId) (call : ProtectedCall) (exit : Exit α) :
    Run (Except Report α) := do
  onContext k fun c => ((), { c with frame := call.outer })
  enterScope k call.resume
  match exit with
  | .returned value =>
    log (.returned call.depth)
    return .ok value
  | .failed f =>
    if f.depth ≠ call.depth then log (.crossed f.depth call.depth)
    log (.unwinding call.depth f.code)
    let _ ← destroyScope k call.boundary
    return .error f.report
  | .panicked p =>
    log (.unwindingAfterPanic call.depth)
    let _ ← destroyScope k call.boundary
    throw (.panic p)

def protect {m : Type → Type} [Monad m] [MonadLiftT Run m] [MonadExceptOf Stop m]
    (k : ContextId) (detail : Detail) (body : m α) : m (Except Report α) := do
  match ← enterCall k detail with
  | .error report => return .error report
  | .ok call =>
    let exit ← attempt body
    leaveCall k call exit

end Run

end ScopedResources
