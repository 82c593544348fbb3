/-
  Log events.

  An event has a level, a message and named values.  `Event.line` is the whole
  event in one line; `Log.line` is the line of a log on standard error.
-/
import ScopedResources.Context
import ScopedResources.LogFilter

namespace ScopedResources

/-- Something that a log may tell. -/
inductive Event where
  /-- A scope began. -/
  | pushed (scope parent : Index)
  /-- A scope was left without being released. -/
  | popped (scope parent : Index)
  /-- A release is attached to a record that is gone. -/
  | lateCommit (record : Index)
  /-- A scope was torn down. -/
  | destroyed (scope : Index) (released : Nat)
  /-- A descriptor to be closed was not open. -/
  | closedTwice (descriptor : String)
  /-- A deferred action panicked. -/
  | releasePanicked
  /-- A protected call began. -/
  | entered (depth : Nat) (boundary : Index)
  /-- A protected call ended without a failure. -/
  | returned (depth : Nat)
  /-- A call received a failure that was raised at another depth. -/
  | crossed (raisedAt caughtAt : Nat)
  /-- A protected call ends with a failure. -/
  | unwinding (depth : Nat) (code : Int)
  /-- A protected call ends with a panic. -/
  | unwindingAfterPanic (depth : Nat)
  /-- A failure was raised. -/
  | raised (code : Int) (depth : Nat)
  /-- A failure was raised where no protected call is active. -/
  | raisedOutside (code : Int) (message : String)
  /-- A handle was destroyed after its scope. -/
  | staleHandle (scope : Index)
  /-- The file of a debug lock cannot be opened. -/
  | unserialized (error : String)
  /-- The host refuses the lock of a debug lock's file. -/
  | lockRefused (path error : String)
  deriving DecidableEq, Repr

namespace Event

def level : Event → Level
  | pushed _ _ | popped _ _ | entered _ _ | returned _ => .trace
  | lateCommit _ | destroyed _ _ | unwinding _ _ | unwindingAfterPanic _ | raised _ _ => .debug
  | crossed _ _ | staleHandle _ | unserialized _ | lockRefused _ _ => .warn
  | closedTwice _ | releasePanicked | raisedOutside _ _ => .error

def message : Event → String
  | pushed _ _ => "pushed scope"
  | popped _ _ => "popped scope"
  | lateCommit _ => "commit on a record whose scope is gone, releasing now"
  | destroyed _ _ => "destroyed scope"
  | closedTwice _ => "descriptor closed twice"
  | releasePanicked => "cleanup action panicked during teardown"
  | entered _ _ => "entered protected call"
  | returned _ => "protected call returned"
  | crossed _ _ => "failure crossed a protected call it was not raised in"
  | unwinding _ _ => "unwinding protected call"
  | unwindingAfterPanic _ => "unwinding protected call after panic"
  | raised _ _ => "failure raised"
  | raisedOutside _ message => "failure raised outside any protected call | " ++ message
  | staleHandle _ => "handle outlived its scope"
  | unserialized _ => "debug output will not be serialized"
  | lockRefused _ _ => "flock failed"

/-- The named values of an event, in order. -/
def fields : Event → List (String × String)
  | pushed scope parent | popped scope parent =>
    [("scope", scope.nodeText), ("parent", parent.nodeText)]
  | lateCommit record => [("record", record.nodeText)]
  | destroyed scope released => [("scope", scope.nodeText), ("released", toString released)]
  | closedTwice descriptor => [("fd", descriptor)]
  | releasePanicked => []
  | entered depth boundary => [("depth", toString depth), ("boundary", boundary.scopeText)]
  | returned depth | unwindingAfterPanic depth => [("depth", toString depth)]
  | crossed raisedAt caughtAt =>
    [("raised_at", toString raisedAt), ("caught_at", toString caughtAt)]
  | unwinding depth code => [("depth", toString depth), ("code", toString code)]
  | raised code depth => [("code", toString code), ("depth", toString depth)]
  | raisedOutside code _ => [("code", toString code)]
  | staleHandle scope => [("scope", scope.scopeText)]
  | unserialized error => [("error", error)]
  | lockRefused path error => [("path", path), ("error", error)]

def text (e : Event) : String :=
  e.message ++ String.join (e.fields.map fun (name, value) => " " ++ name ++ "=" ++ value)

def line (e : Event) : String :=
  e.level.name ++ " " ++ e.text

/-- The part of the program that an event is from, as log filters name it. -/
def target : Event → String
  | unserialized _ | lockRefused _ _ => "unwound_utils::debug_lock"
  | _ => "unwound_scope"

end Event

/-! ## Logs -/

/-- A log on standard error: what it takes, and the time it shows. -/
structure Log where
  filter : LogFilter
  time : String

namespace Log

/-- Whether a log takes an event; events below warnings are never written. -/
def takes (log : Log) (e : Event) : Bool :=
  e.level.rank ≤ Level.warn.rank &&
    log.filter.enables e.target e.level ("message" :: e.fields.map (·.1))

def line (log : Log) (e : Event) : String :=
  log.time ++ " " ++ (if e.level.name.length < 5 then " " else "") ++ e.level.name ++ " " ++
    e.target ++ ": " ++ e.text ++ "\n"

end Log

end ScopedResources
