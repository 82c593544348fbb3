/-
  Sessions: a world, what the names of a script stand for in it, and what the
  script has told.

  Names of different kinds do not meet: a scope and a block may have the same
  name.  A name that is given again stands for the later thing.

  * `Play` is a run in a session.  Runs in a world are lifted to it, so that
    `Run.withScope`, `Run.protect` and `Run.createHandle` take bodies that use
    names and tell what they do.
  * `tell` adds an entry and takes the journal into it.
-/
import ScopedResources.Config.Load
import ScopedResources.Run.Lock
import ScopedResources.Script.Entry

namespace ScopedResources.Script

/-- Things by name. -/
abbrev Bindings (α : Type) := List (String × α)

/-- Gives a name to a thing, and takes it from any other. -/
def Bindings.bind (names : Bindings α) (name : String) (value : α) : Bindings α :=
  (name, value) :: names.filter (·.1 ≠ name)

def Bindings.forget (names : Bindings α) (name : String) : Bindings α :=
  names.filter (·.1 ≠ name)

/-- What the names of a script stand for. -/
structure Names where
  /-- All contexts that were created, the latest first. -/
  contexts : Bindings ContextId := []
  scopes : Bindings Index := []
  reservations : Bindings Index := []
  blocks : Bindings Index := []
  texts : Bindings Index := []
  handles : Bindings (Handle Held) := []
  descriptors : Bindings Nat := []
  locks : Bindings LockId := []
  failures : Bindings Failure := []
  reports : Bindings Report := []

/-- A world with names, and what has been told about it, the last first. -/
structure Session where
  world : World
  names : Names
  trace : List Entry

/-- A run in a session. -/
abbrev Play := ExceptT Stop (StateM Session)

/-- A run in a world is one in a session, whose names and trace stay as they are. -/
instance (priority := low) : MonadLift Run Play where
  monadLift run := fun
    | ⟨world, names, trace⟩ =>
      let (result, world) := run world
      (result, ⟨world, names, trace⟩)

/-! ## Names -/

def look (kind : Names → Bindings α) (name : String) : Play (Option α) :=
  return (kind (← get).names).lookup name

def rename (f : Names → Names) : Play Unit :=
  modify fun s => { s with names := f s.names }

/-- The context with a name; a number without a context if there is none. -/
def contextNamed (name : String) : Play ContextId :=
  return ((← get).names.contexts.lookup name).getD (← get).world.contexts.size

def bindScope (name : String) (scope : Index) : Play Unit :=
  rename fun n => { n with scopes := n.scopes.bind name scope }

/-- Names a scope, if there is a name for it. -/
def bindScope? (name : Option String) (scope : Option Index) : Play Unit := do
  if let some name := name then
    if let some scope := scope then
      bindScope name scope

/-- Names a descriptor; messages show it by the name from now on. -/
def bindDescriptor (name : String) (fd : Nat) : Play Unit :=
  modify fun s => { s with
    names.descriptors := s.names.descriptors.bind name fd
    world.names := ((fd : Int), name) :: s.world.names }

/-- Names a debug lock; a lock that had the name before is given up. -/
def bindLock (name : String) (lock : LockId) : Play Unit := do
  let before ← look (·.locks) name
  rename fun n => { n with locks := n.locks.bind name lock }
  if let some old := before then
    Run.dropLock old

/-- The number of a descriptor; `-2` for a name that none has. -/
def number : DescriptorRef → Play Int
  | .number fd => return fd
  | .named name => do
    match ← look (·.descriptors) name with
    | some fd => return fd
    | none => return -2

def payload : PayloadRef → Play (Option Index)
  | .block name => look (·.blocks) name
  | .text name => look (·.texts) name

/-! ## Entries -/

/-- What a context shows, by its name. -/
def viewOf (context : String) : Play (Option View) := do
  let k ← contextNamed context
  return ((← get).world.context? k).map View.of

def takeJournal : Play Journal :=
  modifyGet fun s => (s.world.journal, { s with world.journal := .empty })

/-- Adds an entry with what has happened since the last one. -/
def addEntry (entry : Journal → Entry) : Play Unit := do
  let journal ← takeJournal
  modify fun s => { s with trace := entry journal :: s.trace }

def tell (path : List Nat) (context : String) (answer : Answer) : Play Unit := do
  let view ← viewOf context
  addEntry (.step path answer view)

end ScopedResources.Script
