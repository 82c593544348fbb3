/-
  Running releases, and dropping contexts.

  Releases run in the order that a teardown gives.  A release must not fail: a
  panic in it, or a descriptor or a lock file that is not open when it is to be
  closed, ends the process.

  A release may drop another context, whose own releases then run before the
  next one.  Each such drop leaves one context less, so the number of contexts
  bounds how deep drops nest.

  * `Run.release` runs one release, `Run.releaseAll` those of a teardown.
  * `Run.destroyScope` tears a scope down, `Run.dropContext` a whole context.
-/
import ScopedResources.Run.Fail

namespace ScopedResources.Run

/-! ## Debug locks -/

/-- Gives up one reference to a debug lock; with the last one its file is
    closed.  A file that somebody else has closed ends the process. -/
def dropLock (lock : LockId) : Run Unit := do
  match (← get).locks[lock]? with
  | some state =>
    let references := state.references - 1
    modify fun w =>
      { w with locks := w.locks.setIfInBounds lock { state with references } }
    if references = 0 then
      if let some file := state.file then
        if let .error _ ← host (Host.close file) then throw .abort
  | none => return

/-- Ends one acquisition of a debug lock; with the last one the file lock is
    given back. -/
def leaveLock (lock : LockId) : Run Unit := do
  match (← get).locks[lock]? with
  | some state =>
    let level := state.level - 1
    modify fun w => { w with locks := w.locks.setIfInBounds lock { state with level } }
    if level = 0 then
      if let some file := state.file then
        let _ ← host (Host.unlock file)
    dropLock lock
  | none => return

/-! ## Releases -/

def closeOwned (fd : Int) : Run Unit := do
  match ← host (Host.close fd) with
  | .ok () => return
  | .error _ =>
    log (.closedTwice (← describe fd))
    throw .abort

/-- Runs a release that is due in a context; `drop` drops another context. -/
def release (drop : ContextId → Run Unit) (k : ContextId) (due : Due Release) : Run Unit := do
  modify fun w => { w with journal.ran := due :: w.journal.ran }
  match due.release with
  | .note _ panics =>
    if panics then
      log .releasePanicked
      throw .abort
  | .dropContext _ victim => drop victim
  | .close fd => closeOwned fd
  | .forget _ => return
  | .restoreName previous => onContext k fun c => ((), { c with program := previous })
  | .leaveLock lock => leaveLock lock

/-- Runs releases one after the other. -/
def releaseAll (drop : ContextId → Run Unit) (k : ContextId) (due : List (Due Release)) :
    Run Unit :=
  due.forM (release drop k)

def takeContext (k : ContextId) : Run (Option Context) :=
  modifyGet fun w => (w.context? k, { w with contexts := w.contexts.setIfInBounds k none })

/-- Drops a context: all that it holds is released.  The first argument bounds
    how deep drops nest. -/
def dropWithin : Nat → ContextId → Run Unit
  | 0, _ => return
  | bound + 1, k => do
    if let some c ← takeContext k then
      if let (some teardown, _) := c.tree.destroy c.tree.top then
        releaseAll (dropWithin bound) k teardown.due
        log (.destroyed c.tree.top teardown.removed)

/-- Drops a context: all that it holds is released. -/
def dropContext (k : ContextId) : Run Unit := do
  dropWithin (← get).contexts.size k

/-- Tears a scope down; says whether it was alive. -/
def destroyScope (k : ContextId) (scope : Index) : Run Bool := do
  match ← onTree k (·.destroy scope) with
  | some teardown =>
    releaseAll dropContext k teardown.due
    log (.destroyed scope teardown.removed)
    return true
  | none => return false

end ScopedResources.Run
