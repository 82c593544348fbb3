/-
  Raising failures.

  A failure takes its detail from the innermost protected call of its context.
  Where no call is active there is nobody to report to, and the process ends.

  * `Run.fail` makes a failure, `Run.failIo` one for a refused operation, and
    `Run.failNoMemory` one for exhausted memory.
  * `Run.throwing` sets a failure on its way.
-/
import ScopedResources.Run

namespace ScopedResources.Run

/-- Renders a message; fixed texts need no rendering. -/
def render : Format → Run String
  | .literal text => return text
  | f => do
    modify fun w => { w with renderings := w.renderings + 1 }
    return f.text

/-- The innermost protected call; without one the process ends, after the
    failure has been logged. -/
def activeFrame (k : ContextId) (code : Int) (f : Format) : Run Frame := do
  match ← view k (·.frame) with
  | some frame => return frame
  | none =>
    log (.raisedOutside code f.written)
    throw .abort

/-- A failure with a code and a message, which is rendered only if the innermost
    call asks for it. -/
def fail (k : ContextId) (code : Int) (f : Format) : Run Failure := do
  let frame ← activeFrame k code f
  match frame.detail with
  | .message =>
    let message ← render f
    let program ← view k (·.program)
    log (.raised code frame.depth)
    return ⟨code, some message, some program, frame.depth⟩
  | .code =>
    log (.raised code frame.depth)
    return ⟨code, none, none, frame.depth⟩

/-- The failure for exhausted memory; its message is fixed. -/
def failNoMemory (k : ContextId) : Run Failure := do
  let frame ← activeFrame k Errno.noMemory (.literal noMemoryMessage)
  match frame.detail with
  | .message =>
    let program ← view k (·.program)
    return ⟨Errno.noMemory, some noMemoryMessage, some program, frame.depth⟩
  | .code => return ⟨Errno.noMemory, some noMemoryMessage, none, frame.depth⟩

/-- The failure for a refused operation: its code, and its text after the
    message. -/
def failIo (k : ContextId) (e : IoError) (f : Format) : Run Failure :=
  fail k e.code (f.append (": " ++ e.message))

def throwing (f : Run Failure) : Run α := do
  throw (.failure (← f))

/-- The result of a call to the host, or a failure that starts with what was
    tried. -/
def granted (k : ContextId) (what : Run String) (result : Except Errno α) : Run α := do
  match result with
  | .ok value => return value
  | .error e =>
    let what ← what
    throwing (failIo k (.os e) (.rendered what false))

end ScopedResources.Run
