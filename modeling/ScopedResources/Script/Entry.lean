/-
  What a script tells: an entry for each step that ended, then how the whole
  ended, then an entry for each context that was still there to be dropped.

  Every entry has the part of the journal that came after the entry before it.
-/
import ScopedResources.Run.Handle
import ScopedResources.Script.Program
import ScopedResources.SetupError

namespace ScopedResources.Script

/-- The value of a handle. -/
inductive Held where
  | text (value : String)
  | descriptor (fd : Nat)
  deriving DecidableEq, Repr

/-- What is known of a descriptor that is open. -/
structure DescriptorState where
  closeOnExec : Bool
  access : Access
  nonblock : Bool
  deriving DecidableEq, Repr

/-- What a step answers. -/
inductive Answer where
  /-- There is nothing to tell. -/
  | nothing
  /-- What the step did, or that it could not, in a word. -/
  | word (text : String)
  | truth (value : Bool)
  | number (value : Nat)
  | index (i : Index)
  | text (value : String)
  | bytes (value : Bytes)
  | block (value : Block)
  | mode (value : BlockingMode)
  /-- The step failed; with the number of messages rendered where it is told. -/
  | failed (failure : Failure) (renderings : Option Nat)
  /-- A failure was made but not raised. -/
  | made (failure : Failure) (renderings : Nat)
  /-- A protected call reports a failure. -/
  | caught (report : Report)
  /-- A guard met a panic. -/
  | guarded (panic : Panic)
  /-- Something other than a failure went wrong. -/
  | refused (error : SetupError)
  | handle (live : Bool) (handle : Handle Held)
  | descriptor (state : Option DescriptorState)
  | file (node : FileNode)
  deriving Repr

/-- What a context shows after each step. -/
structure View where
  current : Index
  live : Nat
  depth : Nat
  deriving DecidableEq, Repr

def View.of (c : Context) : View :=
  ⟨c.tree.current, c.live, c.depth⟩

/-- How a script ended. -/
inductive Ending where
  /-- All steps were run. -/
  | done
  /-- A failure reached the outermost steps. -/
  | uncaught (failure : Failure)
  /-- A panic did. -/
  | panicked
  deriving DecidableEq, Repr

/-- What a script tells. -/
inductive Entry where
  /-- A step: the positions of the steps around it and its own, its answer, and
      what its context shows if it is alive. -/
  | step (path : List Nat) (answer : Answer) (view : Option View) (journal : Journal)
  /-- The end, with what the first context shows. -/
  | ended (ending : Ending) (view : Option View) (journal : Journal)
  /-- A context was dropped. -/
  | dropped (context : String) (journal : Journal)
  /-- The process ended. -/
  | aborted (journal : Journal)
  deriving Repr

end ScopedResources.Script
