/-
  Contexts: an ownership tree, the protected call that is innermost, and the
  name that failures are reported under.

  Frames of outer calls are not kept here; a call that is entered remembers
  the frame it replaced and puts it back.
-/
import ScopedResources.Failure
import ScopedResources.Release
import ScopedResources.Text.Quoted
import ScopedResources.Tree.Teardown

namespace ScopedResources

/-- The name of a program that has none of its own. -/
def defaultProgramName : String := "unwound"

/-- An active protected call. -/
structure Frame where
  /-- The scope that is torn down when the call fails. -/
  boundary : Index
  /-- What the caller wants to know about a failure. -/
  detail : Detail
  /-- How many calls are active, this one included. -/
  depth : Nat
  deriving DecidableEq, Repr

/-- Scoped ownership together with the innermost protected call. -/
structure Context where
  tree : Tree Release
  frame : Option Frame
  program : String

/-- An index as text: store, slot and generation. -/
def Index.text (i : Index) : String :=
  toString i.arena ++ ":" ++ toString i.slot ++ ":" ++ toString i.generation

def Index.nodeText (i : Index) : String :=
  "NodeIndex(" ++ i.text ++ ")"

/-- The index of a scope as log events and descriptions show it. -/
def Index.scopeText (i : Index) : String :=
  "ScopeId(" ++ i.nodeText ++ ")"

namespace Context

/-- A context whose top scope is current, outside of any call. -/
def new (id : ContextId) (program : String) : Context :=
  ⟨.new (UInt32.ofNat id), none, program⟩

/-- How many protected calls are active. -/
def depth (c : Context) : Nat :=
  match c.frame with
  | some frame => frame.depth
  | none => 0

def boundary? (c : Context) : Option Index :=
  c.frame.map (·.boundary)

/-- The number of scopes and records below the top scope. -/
def live (c : Context) : Nat :=
  c.tree.live

/-- What a record owns, if it is alive and owns something. -/
def payload? (c : Context) (i : Index) : Option Payload :=
  match c.tree.release? i with
  | some (.forget payload) => some payload
  | _ => none

def block? (c : Context) (i : Index) : Option Block :=
  match c.payload? i with
  | some (.block b) => some b
  | _ => none

def text? (c : Context) (i : Index) : Option String :=
  match c.payload? i with
  | some (.text s) => some s
  | _ => none

def description (c : Context) : String :=
  "Context \x7b program: " ++ Text.quoted c.program ++ ", current: " ++
    c.tree.current.scopeText ++ ", live_resources: " ++ toString c.live ++ ", depth: " ++
    toString c.depth ++ " \x7d"

end Context

end ScopedResources
