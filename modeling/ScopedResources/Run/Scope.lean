/-
  Scopes of a context.

  * `Run.pushScope` begins a scope under the current one, `Run.popScope` leaves
    one without releasing anything.
  * `Run.leaveScope` leaves a scope and tears it down.
  * `Run.withScope` runs a body in a scope of its own, which is released when
    the body succeeds; a failure leaves it to the enclosing protected call.
-/
import ScopedResources.Run.Release

namespace ScopedResources.Run

/-- Creates a context, and gives its number. -/
def newContext (program : String) : Run ContextId :=
  modifyGet fun w =>
    let k := w.contexts.size
    (k, { w with contexts := w.contexts.push (some (Context.new k program)) })

/-- Begins a scope under the current one and makes it current, if there is
    room. -/
def pushScope? (k : ContextId) : Run (Option Index) := do
  let parent ← view k (·.tree.current)
  let pushed ← onTree k Tree.push
  if let some scope := pushed then log (.pushed scope parent)
  return pushed

/-- Begins a scope under the current one and makes it current. -/
def pushScope (k : ContextId) : Run Index := do
  match ← pushScope? k with
  | some scope => return scope
  | none => throwing (failNoMemory k)

/-- Makes the parent of the current scope current; gives the scope that was
    left. -/
def popScope (k : ContextId) : Run Index := do
  let scope ← view k (·.tree.current)
  if let some parent ← view k (·.tree.parent? scope) then
    onTree k fun t => ((), t.pop)
    log (.popped scope parent)
  return scope

/-- Makes a scope current; one that is gone is replaced by the top scope. -/
def enterScope (k : ContextId) (scope : Index) : Run Unit :=
  onTree k fun t => ((), t.enter scope)

/-- Leaves a scope for its parent and tears it down; says whether it was alive. -/
def leaveScope (k : ContextId) (scope : Index) : Run Bool := do
  if let some parent ← view k (·.tree.parent? scope) then
    enterScope k parent
  destroyScope k scope

/-- Runs a body in a scope of its own, which is released when the body
    succeeds. -/
def withScope {m : Type → Type} [Monad m] [MonadLiftT Run m] (k : ContextId) (body : m α) :
    m α := do
  let scope ← pushScope k
  let value ← body
  let _ ← leaveScope k scope
  return value

end ScopedResources.Run
