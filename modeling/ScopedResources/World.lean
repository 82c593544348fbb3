/-
  Worlds: all that the operations of a process can see and change.

  A world holds the contexts by order of creation, the host, the debug locks,
  and a journal of what was released and logged.

  * `World.context` is a context by its number; `World.onContext` changes one.
  * `World.record` puts an event into the journal, and into the log if there is
    one that takes it.
  * `World.describe` is how messages show a descriptor.
-/
import ScopedResources.Event
import ScopedResources.Host

namespace ScopedResources

/-- The state that the clones of a debug lock share. -/
structure DebugLock where
  path : Bytes
  /-- The descriptor of the lock file, once it has been opened. -/
  file : Option Nat
  /-- How many acquisitions are alive. -/
  level : UInt32
  /-- How many clones and acquisitions there are; the file is closed when there
      are none. -/
  references : Nat
  deriving DecidableEq, Repr

/-- What has happened, the last first. -/
structure Journal where
  /-- The releases that were run. -/
  ran : List (Due Release)
  /-- The events that were logged. -/
  events : List Event
  deriving DecidableEq, Repr

def Journal.empty : Journal := ⟨[], []⟩

/-- The labels that releases have noted, in order. -/
def Journal.labels (j : Journal) : List String :=
  (j.ran.filterMap (·.release.label?)).reverse

/-- The events in one line each, in order. -/
def Journal.lines (j : Journal) : List String :=
  (j.events.map Event.line).reverse

/-- All that the operations of a process can see and change. -/
structure World where
  /-- The contexts by order of creation; those that were dropped are gone. -/
  contexts : Array (Option Context)
  host : Host
  locks : Array DebugLock
  journal : Journal
  /-- How many messages have been rendered. -/
  renderings : Nat
  /-- Names under which messages show descriptors, the latest first. -/
  names : List (Int × String)
  /-- The number of the process, as debug lines show it. -/
  identity : String
  log : Option Log

namespace World

/-- A world on a host, without any context. -/
def new (host : Host) (identity : String) (log : Option Log) : World :=
  ⟨#[], host, #[], .empty, 0, [], identity, log⟩

/-- A context that is alive, by its number. -/
def context? (w : World) (k : ContextId) : Option Context :=
  (w.contexts[k]?).join

/-- A context by its number; one without anything in it for a number that has
    none. -/
def context (w : World) (k : ContextId) : Context :=
  (w.context? k).getD (Context.new k "")

/-- Whether some context that is alive is going to drop a context. -/
def isAwaited (w : World) (k : ContextId) : Bool :=
  w.contexts.any fun
    | some c => c.tree.anyRelease (·.drops k)
    | none => false

/-- Changes a context and gives a result; a context that is gone stays gone.
    The context is taken out of the world while it changes. -/
def onContext (w : World) (k : ContextId) (f : Context → α × Context) : α × World :=
  match w.contexts[k]? with
  | some (some c) =>
    let contexts := w.contexts.setIfInBounds k none
    let (a, c) := f c
    (a, { w with contexts := contexts.setIfInBounds k (some c) })
  | _ => ((f (Context.new k "")).1, w)

/-- How messages show a descriptor: by its latest name, else by its number. -/
def describe (w : World) (fd : Int) : String :=
  (w.names.lookup fd).getD (toString fd)

/-- Puts an event into the journal, and writes it to the log. -/
def record (w : World) (e : Event) : World :=
  let w := { w with journal.events := e :: w.journal.events }
  match w.log with
  | some log =>
    if log.takes e then
      match w.host.error.write (Utf8.encode (log.line e)) with
      | .ok sink => { w with host.error := sink }
      | .error _ => w
    else w
  | none => w

end World

end ScopedResources
