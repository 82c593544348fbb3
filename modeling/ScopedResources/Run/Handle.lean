/-
  Handles: values whose resources live in a scope of their own.

  The scope is begun under the current one and left without being torn down,
  so it is released by its handle or together with a scope around it,
  whichever comes first.

  * `Run.createHandle`, `Run.destroyHandle`
  * `Run.duplicateHandle` is a handle on a duplicated descriptor.
-/
import ScopedResources.Run.Acquire

namespace ScopedResources

/-- A value and the scope that holds its resources. -/
structure Handle (α : Type) where
  scope : Index
  value : α
  deriving DecidableEq, Repr

namespace Run

/-- Acquires a value in a scope of its own. -/
def createHandle {m : Type → Type} [Monad m] [MonadLiftT Run m] (k : ContextId)
    (acquire : m α) : m (Handle α) := do
  let scope ← pushScope k
  let value ← acquire
  let _ ← popScope k
  return ⟨scope, value⟩

/-- Releases the scope of a handle; says whether it was alive. -/
def destroyHandle (k : ContextId) (handle : Handle α) : Run Bool := do
  let destroyed ← destroyScope k handle.scope
  if !destroyed then log (.staleHandle handle.scope)
  return destroyed

def duplicateHandle (k : ContextId) (fd : Int) : Run (Handle Nat) :=
  createHandle k (duplicate k fd)

end Run

end ScopedResources
