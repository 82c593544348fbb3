/-
  Runs: what happens in a world.

  A run changes a world and ends with a result, or it stops: with a failure on
  its way to a protected call, with a panic, or with the end of the process.
  A world that a run has changed stays changed, however the run ends.

  * `Run.attempt` lets a run end in whatever way it does, short of the end of
    the process; it works in any monad in which runs take place.
  * `Run.onContext`, `Run.onTree`, `Run.host` reach into the world.
-/
import ScopedResources.World

namespace ScopedResources

/-- What a panic carries. -/
inductive Panic where
  /-- A panic that was asked for. -/
  | raised (text : String)
  /-- A descriptor that cannot exist was used. -/
  | impossibleDescriptor
  /-- A file was looked at that may not be read. -/
  | unreadableFile
  deriving DecidableEq, Repr

/-- Why a run stops. -/
inductive Stop where
  | failure (f : Failure)
  | panic (p : Panic)
  /-- The process ends. -/
  | abort
  deriving DecidableEq, Repr

/-- A run in a world. -/
abbrev Run := ExceptT Stop (StateM World)

/-- How a run ended that did not end the process. -/
inductive Exit (α : Type) where
  | returned (value : α)
  | failed (f : Failure)
  | panicked (p : Panic)
  deriving Repr

namespace Run

section
variable {m : Type → Type} [Monad m] [MonadExceptOf Stop m]

/-- Lets a run end with a result, a failure or a panic. -/
def attempt (run : m α) : m (Exit α) :=
  tryCatchThe Stop (Exit.returned <$> run) fun
    | .failure f => return .failed f
    | .panic p => return .panicked p
    | .abort => throwThe Stop .abort

end

def onContext (k : ContextId) (f : Context → α × Context) : Run α :=
  modifyGet (·.onContext k f)

def onTree (k : ContextId) (f : Tree Release → α × Tree Release) : Run α :=
  onContext k fun c =>
    let (a, tree) := f c.tree
    (a, { c with tree })

def view (k : ContextId) (f : Context → α) : Run α :=
  return f ((← get).context k)

def log (e : Event) : Run Unit :=
  modify (·.record e)

def host (call : Host.Call α) : Run (Except Errno α) :=
  modifyGet fun w =>
    let (result, host) := call.run w.host
    (result, { w with host })

/-- How messages show a descriptor. -/
def describe (fd : Int) : Run String :=
  return (← get).describe fd

end Run

end ScopedResources
