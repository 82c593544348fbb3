/-
  What each operation of a script does and answers.

  An operation looks up what its names stand for, does one thing through
  `ScopedResources.Run`, and names the result.

  * `perform` is the table of all operations.
  * `bracketed` is the text that a script formats.
-/
import ScopedResources.Script.Session

namespace ScopedResources.Script

/-! ## Answers -/

def Answer.ofIndex? : Option Index → Answer
  | some i => .index i
  | none => .nothing

/-- The answer of a step for which there is nothing of the name it gives. -/
def Answer.missing : Answer := .word "none"

/-! ## Contexts and scopes -/

/-- Creates a context; gives its top scope. -/
def newContext (name : String) (program : Option String) : Play Index := do
  let k ← Run.newContext (program.getD defaultProgramName)
  rename fun n => { n with contexts := (name, k) :: n.contexts }
  Run.view k (·.tree.top)

/-- Takes a step a number of times; gives the last result, `last` if there is none. -/
def repeated (step : Run α) : Nat → Option α → Run (Option α)
  | 0, last => return last
  | count + 1, _ => do
    let result ← step
    repeated step count (some result)

def withScopeNamed (name : String) (f : Index → Run Answer) : Play Answer := do
  match ← look (·.scopes) name with
  | some scope => f scope
  | none => return .nothing

/-! ## Failures -/

def literalMessage : Format := .literal "a literal message"

/-- Fails with a failure that was kept; it is not kept any longer. -/
def raise (name : String) : Play Answer := do
  match ← look (·.failures) name with
  | some failure =>
    rename fun n => { n with failures := n.failures.forget name }
    throw (.failure failure)
  | none => return .missing

/-- Fails with the code of a report, and with its text after some words. -/
def rethrow (k : ContextId) (name text : String) : Play Answer := do
  match ← look (·.reports) name with
  | some report =>
    Run.throwing (Run.fail k report.code (.rendered (text ++ ": " ++ report.display) false))
  | none => return .missing

def makeFailure (k : ContextId) (name : String) (code : Int) (message : Format) :
    Play Answer := do
  let before := (← get).world.renderings
  let failure ← Run.fail k code message
  rename fun n => { n with failures := n.failures.bind name failure }
  return .made failure ((← get).world.renderings - before)

/-! ## Records and payloads -/

/-- Defers noting a label; several labels are numbered. -/
def defer (k : ContextId) (label : String) (count : Nat) : Run Unit :=
  if count = 1 then Run.defer k (.note label false)
  else (List.range count).forM fun i => Run.defer k (.note (label ++ toString i) false)

/-- Commits a reservation, which is not kept any longer. -/
def commit (k : ContextId) (name : String) (due : Release) : Play Answer := do
  match ← look (·.reservations) name with
  | some record =>
    rename fun n => { n with reservations := n.reservations.forget name }
    Run.commit k record due
    return .word "committed"
  | none => return .missing

/-- Writes a byte of a block; answers the byte before. -/
def setByte (k : ContextId) (name : String) (position : Nat) (byte : UInt8) : Play Answer := do
  match ← look (·.blocks) name with
  | some record =>
    match ← Run.setByte k record position byte with
    | some (some before) => return .number before.toNat
    | some none => return .nothing
    | none => return .word "gone"
  | none => return .word "gone"

/-- The text that scripts format: what they give, between brackets. -/
def bracketed (text : Format) : Format :=
  (text.prepend "<").append ">"

/-! ## Handles -/

/-- A handle on a duplicate; the duplicate gets the handle's name. -/
def duplicateHandle (k : ContextId) (name : String) (fd : DescriptorRef) : Play Answer := do
  let handle ← Run.duplicateHandle k (← number fd)
  rename fun n => { n with
    handles := n.handles.bind name ⟨handle.scope, .descriptor handle.value⟩ }
  bindDescriptor name handle.value
  return .index handle.scope

/-- Looks at a handle; its scope gets its name. -/
def showHandle (k : ContextId) (name : String) : Play Answer := do
  match ← look (·.handles) name with
  | some handle =>
    bindScope name handle.scope
    return .handle (← Run.view k (·.tree.isScope handle.scope)) handle
  | none => return .nothing

/-- Destroys a handle, which is not kept any longer. -/
def destroyHandle (k : ContextId) (name : String) : Play Answer := do
  match ← look (·.handles) name with
  | some handle =>
    rename fun n => { n with handles := n.handles.forget name }
    return .truth (← Run.destroyHandle k handle)
  | none => return .nothing

/-! ## Debug locks -/

def withLock (name : String) (f : LockId → Play Answer) : Play Answer := do
  match ← look (·.locks) name with
  | some lock => f lock
  | none => return .nothing

def lockFor (name : String) (settings : List (String × String)) : Play Answer := do
  match (Config.load fun v => settings.lookup v).1 with
  | .ok config =>
    bindLock name (← Run.newLockFor config)
    return .nothing
  | .error e => return .refused e

/-- Prints a debug message; answers what standard error took. -/
def debugPrint (k : ContextId) (lock : LockId) (text : Format) (error : Condition) :
    Run Answer := do
  modify fun w => { w with host.error := ⟨error, []⟩ }
  Run.debugPrint k lock text
  return .text ((Utf8.decode? (← get).host.error.content).getD "")

/-! ## The host -/

/-- A call to the host; answers whether it was granted. -/
def granted (call : Host.Call α) : Run Answer := do
  match ← Run.host call with
  | .ok _ => return .truth true
  | .error _ => return .truth false

def descriptorState? (h : Host) (fd : Int) : Option DescriptorState := do
  let d ← h.descriptor? fd
  let file ← h.openFile? fd
  return ⟨d.closeOnExec, file.status.access, file.status.has StatusWord.nonblockBit⟩

/-- Whether a file can be opened now, to be read. -/
def canRead (h : Host) (node : FileNode) : Bool :=
  node.isReadable && !h.exhausted

/-- What a path leads to; all but directories have to be readable. -/
def probeFile (path : Bytes) : Run Answer := do
  let host := (← get).host
  match host.files.find path with
  | .ok id =>
    match host.files.node? id with
    | some (.directory parent entries) => return .file (.directory parent entries)
    | some node =>
      if canRead host node then return .file node
      throw (.panic .unreadableFile)
    | none => return .nothing
  | .error _ => return .nothing

def probeLock (path : Bytes) : Run Answer := do
  let host := (← get).host
  match host.files.find path with
  | .ok id =>
    return if (host.files.node? id).any (canRead host) then .truth (host.isLocked id) else .nothing
  | .error _ => return .nothing

/-- Makes a terminal; its controlled side gets a name. -/
def openTerminal (name : String) : Play Answer := do
  if let .ok (_, controlled) ← Run.host Host.openTerminal then
    bindDescriptor name controlled
  return .nothing

/-! ## The table of operations -/

def bindRecord (set : Names → Index → Names) (record : Index) : Play Answer := do
  rename fun n => set n record
  return .index record

def perform (context : String) (operation : Operation) : Play Answer := do
  let k ← contextNamed context
  match operation with
  | .newContext program => return .index (← newContext context program)
  | .dropContext =>
    Run.dropContext k
    return .nothing
  | .deferDrop victim label =>
    Run.defer k (.dropContext label (← contextNamed victim))
    return .nothing
  | .describe => return .text (← Run.view k (·.description))
  | .programName => return .text (← Run.view k (·.program))
  | .setProgramName program =>
    Run.setProgramName k program
    return .nothing
  | .top name =>
    let scope ← Run.view k (·.tree.top)
    bindScope name scope
    return .index scope
  | .current name =>
    let scope ← Run.view k (·.tree.current)
    bindScope name scope
    return .index scope
  | .parent scope name =>
    match ← look (·.scopes) scope with
    | some scope =>
      let parent ← Run.view k (·.tree.parent? scope)
      bindScope? name parent
      return .ofIndex? parent
    | none => return .nothing
  | .boundary name =>
    let boundary ← Run.view k (·.boundary?)
    bindScope? name boundary
    return .ofIndex? boundary
  | .isLive scope =>
    withScopeNamed scope fun i => return .truth (← Run.view k (·.tree.isScope i))
  | .childCount scope =>
    withScopeNamed scope fun i => do
      return ((← Run.view k (·.tree.children? i)).map fun c => .number c.length).getD .nothing
  | .push name count =>
    let scope ← repeated (Run.pushScope k) count none
    bindScope? (some name) scope
    return .ofIndex? scope
  | .pop name count =>
    let scope ← repeated (Run.popScope k) count none
    bindScope? (some name) scope
    return .ofIndex? scope
  | .destroy scope => withScopeNamed scope fun i => return .truth (← Run.destroyScope k i)
  | .leaveScope scope => withScopeNamed scope fun i => return .truth (← Run.leaveScope k i)
  | .panic text => throw (.panic (.raised text))
  | .fail code message => Run.throwing (Run.fail k code message)
  | .failLiteral code => Run.throwing (Run.fail k code literalMessage)
  | .failNoMemory => Run.throwing (Run.failNoMemory k)
  | .failIo error message => Run.throwing (Run.failIo k error message)
  | .makeFailure name code message => makeFailure k name code message
  | .raise failure => raise failure
  | .rethrow report text => rethrow k report text
  | .defer label count =>
    defer k label count
    return .nothing
  | .reserve name =>
    bindRecord (fun n i => { n with reservations := n.reservations.bind name i }) (← Run.reserve k)
  | .isReserved reservation =>
    match ← look (·.reservations) reservation with
    | some record => return .truth (← Run.view k (·.tree.isReserved record))
    | none => return .nothing
  | .forgetReservation reservation =>
    let known := (← look (·.reservations) reservation).isSome
    rename fun n => { n with reservations := n.reservations.forget reservation }
    return .truth known
  | .commit reservation label panics => commit k reservation (.note label panics)
  | .commitClose reservation fd => commit k reservation (.close (← number fd))
  | .alloc name size =>
    bindRecord (fun n i => { n with blocks := n.blocks.bind name i }) (← Run.alloc k size)
  | .block name =>
    match ← look (·.blocks) name with
    | some record => return ((← Run.view k (·.block? record)).map Answer.block).getD .nothing
    | none => return .nothing
  | .setByte name position byte => setByte k name position byte
  | .format name text =>
    bindRecord (fun n i => { n with texts := n.texts.bind name i })
      (← Run.format k (bracketed text))
  | .duplicateText name text =>
    bindRecord (fun n i => { n with texts := n.texts.bind name i }) (← Run.duplicateText k text)
  | .text name =>
    match ← look (·.texts) name with
    | some record =>
      return ((← Run.view k (·.text? record)).map fun s => .bytes (Utf8.encode s)).getD .nothing
    | none => return .nothing
  | .ownerOf ref name =>
    match ← payload ref with
    | some record =>
      let owner ← Run.view k (·.tree.owner? record)
      bindScope? name owner
      return .ofIndex? owner
    | none => return .nothing
  | .duplicateHandle name fd => duplicateHandle k name fd
  | .handle name => showHandle k name
  | .destroyHandle name => destroyHandle k name
  | .openFile name path flags mode =>
    bindDescriptor name (← Run.openFile k path flags mode)
    return .word "opened"
  | .openPipe readEnd writeEnd =>
    let (r, w) ← Run.openPipe k
    bindDescriptor readEnd r
    bindDescriptor writeEnd w
    return .word "piped"
  | .duplicate name fd =>
    bindDescriptor name (← Run.duplicate k (← number fd))
    return .word "duplicated"
  | .blockingMode fd => return .mode (← Run.blockingMode k (← number fd))
  | .setBlockingMode fd mode => return .mode (← Run.setBlockingMode k (← number fd) mode)
  | .readToEnd fd => return .bytes (← Run.readToEnd k (← number fd))
  | .readExact fd count => return .bytes (← Run.readExact k (← number fd) count)
  | .writeAll fd bytes =>
    Run.writeAll k (← number fd) bytes
    return .word "written"
  | .reopenTerminal fd =>
    Run.reopenTerminal k (← number fd)
    return .word "reopened"
  | .newLock name path =>
    bindLock name (← Run.newLock path)
    return .nothing
  | .lockFor name settings => lockFor name settings
  | .cloneLock lock name =>
    withLock lock fun lock => do
      Run.cloneLock lock
      bindLock name lock
      return .nothing
  | .lockLevel lock => withLock lock fun lock => return .number (← Run.lockLevel lock).toNat
  | .acquireLock lock count =>
    withLock lock fun lock => do
      let _ ← repeated (Run.acquireLock k lock) count none
      return .number (← Run.lockLevel lock).toNat
  | .debugPrint lock text error => withLock lock fun lock => debugPrint k lock text error
  | .openTerminal name => openTerminal name
  | .exhaustDescriptors on =>
    -- a limit that leaves no number but the one of the input, which is in use
    modify fun s => { s with world.host.limit := if on then ⟨1, by decide⟩ else Host.usualLimit }
    return .nothing
  | .closeRaw fd => granted (Host.close (← number fd))
  | .probeDescriptor fd => return .descriptor (descriptorState? (← get).world.host (← number fd))
  | .probeFile path => probeFile path
  | .probeLock path => probeLock path

end ScopedResources.Script
