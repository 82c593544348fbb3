/-
  Scripts: programs over the operations of this library.

  A program is a list of operations, some of which run a body: a scope, a
  protected call, a guard against panics, the acquisition of a handle.  It
  names what it works on; what a name stands for is known when the program is
  run (`ScopedResources.Script.Session`).

  * `Operation` is what a program can do in one step.
  * `Region` is what a body can be run in.
  * `Program` puts operations and bodies in order.
-/
import ScopedResources.Run.Descriptor

namespace ScopedResources.Script

/-- A descriptor as a program names it. -/
inductive DescriptorRef where
  | named (name : String)
  | number (fd : Int)
  deriving DecidableEq, Repr

/-- A record that owns something, as a program names it. -/
inductive PayloadRef where
  | block (name : String)
  | text (name : String)
  deriving DecidableEq, Repr

/-- What a program can do in one step.  `bindTo` is the name that the result
    gets. -/
inductive Operation where
  /- Contexts. -/
  | newContext (program : Option String)
  | dropContext
  /-- Defers dropping another context. -/
  | deferDrop (victim label : String)
  | describe
  | programName
  | setProgramName (program : String)
  /- Scopes. -/
  | top (bindTo : String)
  | current (bindTo : String)
  | parent (scope : String) (bindTo : Option String)
  | boundary (bindTo : Option String)
  | isLive (scope : String)
  | childCount (scope : String)
  | push (bindTo : String) (count : Nat)
  | pop (bindTo : String) (count : Nat)
  | destroy (scope : String)
  | leaveScope (scope : String)
  /- Failures and panics. -/
  | panic (text : String)
  | fail (code : Int) (message : Format)
  /-- Fails with a fixed message. -/
  | failLiteral (code : Int)
  | failNoMemory
  | failIo (error : IoError) (message : Format)
  /-- Makes a failure and keeps it. -/
  | makeFailure (bindTo : String) (code : Int) (message : Format)
  /-- Fails with a failure that was kept. -/
  | raise (failure : String)
  /-- Fails again for a report. -/
  | rethrow (report text : String)
  /- Cleanup records. -/
  | defer (label : String) (count : Nat)
  | reserve (bindTo : String)
  | isReserved (reservation : String)
  | forgetReservation (reservation : String)
  | commit (reservation label : String) (panics : Bool)
  | commitClose (reservation : String) (fd : DescriptorRef)
  /- Payloads. -/
  | alloc (bindTo : String) (size : Nat)
  | block (name : String)
  | setByte (name : String) (position : Nat) (byte : UInt8)
  | format (bindTo : String) (text : Format)
  | duplicateText (bindTo text : String)
  | text (name : String)
  | ownerOf (payload : PayloadRef) (bindTo : Option String)
  /- Handles. -/
  | duplicateHandle (bindTo : String) (fd : DescriptorRef)
  | handle (name : String)
  | destroyHandle (name : String)
  /- Descriptors. -/
  | openFile (bindTo : String) (path : Bytes) (flags : Host.OpenFlags) (mode : Nat)
  | openPipe (readEnd writeEnd : String)
  | duplicate (bindTo : String) (fd : DescriptorRef)
  | blockingMode (fd : DescriptorRef)
  | setBlockingMode (fd : DescriptorRef) (mode : BlockingMode)
  | readToEnd (fd : DescriptorRef)
  | readExact (fd : DescriptorRef) (count : Nat)
  | writeAll (fd : DescriptorRef) (bytes : Bytes)
  | reopenTerminal (fd : DescriptorRef)
  /- Debug locks. -/
  | newLock (bindTo : String) (path : Bytes)
  | lockFor (bindTo : String) (settings : List (String × String))
  | cloneLock (lock bindTo : String)
  | lockLevel (lock : String)
  | acquireLock (lock : String) (count : Nat)
  | debugPrint (lock : String) (text : Format) (error : Condition)
  /- The host itself, behind the back of every context. -/
  | openTerminal (bindTo : String)
  | exhaustDescriptors (on : Bool)
  | closeRaw (fd : DescriptorRef)
  | probeDescriptor (fd : DescriptorRef)
  | probeFile (path : Bytes)
  | probeLock (path : Bytes)
  deriving Repr

/-- Whether a failure of an operation is told together with how often its
    message was rendered. -/
def Operation.tellsRenderings : Operation → Bool
  | fail _ _ | failIo _ _ => true
  | _ => false

/-- What a body can be run in. -/
inductive Region where
  /-- A scope of its own. -/
  | withScope
  /-- A protected call; what it reports gets a name. -/
  | protect (detail : Detail) (bindTo : String)
  /-- A place where panics end. -/
  | guard
  /-- The acquisition of a handle on a text. -/
  | handle (bindTo value : String)
  deriving Repr

/-- A program; each step names the context that it works on. -/
inductive Program where
  | done
  | perform (context : String) (operation : Operation) (next : Program)
  /-- Runs a body. -/
  | within (context : String) (region : Region) (body next : Program)
  /-- Leaves the innermost body; what follows is not run. -/
  | leave (context : String) (next : Program)
  deriving Repr, Inhabited

end ScopedResources.Script
