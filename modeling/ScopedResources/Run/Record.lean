/-
  Cleanup records, in two steps: reserved before something is acquired, and
  committed after.

  * `Run.reserve` adds a record to the current scope.
  * `Run.commit` attaches a release; where the record is gone, the release runs
    at once.
  * `Run.setProgramName` replaces the program's name for as long as the current
    scope lives.
-/
import ScopedResources.Run.Scope

namespace ScopedResources.Run

def reserve (k : ContextId) : Run Index := do
  match ← onTree k Tree.reserve with
  | some record => return record
  | none => throwing (failNoMemory k)

/-- Attaches a release to a record, or runs it at once if the record is gone. -/
def commit (k : ContextId) (record : Index) (due : Release) : Run Unit := do
  let attached ← onTree k (·.commit record due)
  if !attached then
    log (.lateCommit record)
    release dropContext k ⟨record, due⟩

def defer (k : ContextId) (due : Release) : Run Unit := do
  let record ← reserve k
  commit k record due

/-- Replaces the program's name until the current scope is torn down. -/
def setProgramName (k : ContextId) (name : String) : Run Unit := do
  let record ← reserve k
  let previous ← view k (·.program)
  onContext k fun c => ((), { c with program := name })
  commit k record (.restoreName previous)

end ScopedResources.Run
