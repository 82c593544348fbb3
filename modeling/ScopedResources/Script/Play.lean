/-
  Playing a script: its steps in order, and then the end.

  A step that ends is told, with its answer or the failure that it ended with.
  A failure or a panic leaves all bodies around it up to the region that ends
  it; where none does, it ends the script.  At the end, the contexts that are
  still there are dropped in the order of their creation, but one that another
  is going to drop is left to that.

  * `Program.play` is a program as a run in a session, by recursion on the
    program.
  * `play` is the whole script, from a host to all that is told.
-/
import ScopedResources.Run.Protected
import ScopedResources.Script.Perform

namespace ScopedResources.Script

/-! ## Steps -/

/-- Takes a step and tells how it ended; a panic is left to those around it. -/
def step (path : List Nat) (context : String) (tellsRenderings : Bool) (act : Play Answer) :
    Play Unit := do
  let before := (← get).world.renderings
  match ← Run.attempt act with
  | .returned answer => tell path context answer
  | .failed failure =>
    let renderings := (← get).world.renderings - before
    tell path context (.failed failure (if tellsRenderings then some renderings else none))
    throw (.failure failure)
  | .panicked panic => throw (.panic panic)

/-- Takes the step of an operation; a panic that a script asks for is told
    before. -/
def stepOperation (path : List Nat) (context : String) (operation : Operation) : Play Unit := do
  if let .panic _ := operation then
    tell path context (.word "panicking")
  step path context operation.tellsRenderings (perform context operation)

/-! ## Regions -/

/-- What a region answers when its body ended as it should. -/
def Answer.ok : Answer := .word "ok"

def inRegion (context : String) (region : Region) (body : Play Unit) : Play Answer := do
  let k ← contextNamed context
  match region with
  | .withScope =>
    Run.withScope k body
    return .ok
  | .protect detail name =>
    match ← Run.protect k detail body with
    | .ok () => return .ok
    | .error report =>
      rename fun n => { n with reports := n.reports.bind name report }
      return .caught report
  | .guard =>
    match ← Run.attempt body with
    | .returned () => return .ok
    | .failed failure => throw (.failure failure)
    | .panicked panic => return .guarded panic
  | .handle name value =>
    let handle ← Run.createHandle k do
      body
      return Held.text value
    rename fun n => { n with handles := n.handles.bind name handle }
    return .index handle.scope

/-- Takes the step of a region; that its body begins is told too. -/
def stepRegion (path : List Nat) (context : String) (region : Region) (body : Play Unit) :
    Play Unit :=
  step path context false <| inRegion context region do
    tell path context (.word "enter")
    body

/-! ## Programs -/

/-- A program whose first step has a position in a body with a path. -/
def Program.play : Program → List Nat → Nat → Play Unit
  | done, _, _ => return
  | perform context operation next, path, position => do
    stepOperation (path ++ [position]) context operation
    next.play path (position + 1)
  | within context region body next, path, position => do
    let here := path ++ [position]
    stepRegion here context region (body.play here 0)
    next.play path (position + 1)
  | leave context _, path, position => tell (path ++ [position]) context (.word "return")

/-- The name of the context that every script begins with. -/
def firstContext : String := "main"

/-- Tells how the script ended. -/
def tellEnding (ending : Ending) : Play Unit := do
  let view ← viewOf firstContext
  addEntry (.ended ending view)

/-- Drops a context that is still alive, unless another one is going to drop
    it; gives whether it was dropped. -/
def dropIfLeft (k : ContextId) : Run Bool := do
  let world ← get
  if (world.context? k).isNone || world.isAwaited k then return false
  Run.dropContext k
  return true

/-- Drops what is left in the order of creation, and tells each drop if that is
    wanted; at last the debug locks that have names are given up. -/
def dropLeft (telling : Bool) : Play Unit := do
  (← get).names.contexts.reverse.forM fun (name, k) => do
    if ← dropIfLeft k then
      if telling then addEntry (.dropped name)
  (← get).names.locks.forM fun (_, lock) => Run.dropLock lock

/-- The steps of a script, its end, and the drop of what is left.  After a panic
    that the script did not ask for, nothing more is told. -/
def wholePlay (first : Option String) (program : Program) : Play Unit := do
  let _ ← newContext firstContext first
  match ← Run.attempt (program.play [] 0) with
  | .returned () =>
    tellEnding .done
    dropLeft true
  | .failed failure =>
    tellEnding (.uncaught failure)
    dropLeft true
  | .panicked (.raised _) =>
    tellEnding .panicked
    dropLeft true
  | .panicked .impossibleDescriptor | .panicked .unreadableFile => dropLeft false

/-- All that a script tells, in order.  `first` is the program's name in the
    first context, `identity` the number of the process. -/
def play (host : Host) (identity : String) (first : Option String) (program : Program) :
    List Entry :=
  let (exit, session) := (wholePlay first program).run ⟨.new host identity none, {}, []⟩
  match exit with
  | .error .abort => (Entry.aborted session.world.journal :: session.trace).reverse
  | _ => session.trace.reverse

end ScopedResources.Script
