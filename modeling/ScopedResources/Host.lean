/-
  The host: descriptors, and what they are open on: files, pipes, devices and
  terminals.

  A descriptor is a number that refers to an open file; duplicates refer to the
  same open file and share its status word, its position and its file lock.
  New descriptors get the lowest number that is free, if it is below the limit of
  the process.

  A call to the host (`Host.Call`) gives a result or the number of an error.
  A call that would have to wait for another process gives the error for that
  instead, and the file lock is granted at once.

  * `Host.exhausted`: whether the limit of descriptors has been reached.
  * `Host.openFile`, `Host.openPipe`, `Host.duplicate`, `Host.close`
  * `Host.read`, `Host.write`
  * `Host.status`, `Host.setStatus`: the status word of an open file
  * `Host.lock`, `Host.unlock`: the lock that an open file may hold
-/
import ScopedResources.Host.Files
import ScopedResources.Host.Pipe

namespace ScopedResources

/-! ## Open files -/

/-- A stream that takes what is written to it. -/
inductive Stream where
  | output
  | error
  deriving DecidableEq, Repr

/-- What becomes of a write to a stream. -/
inductive Condition where
  /-- It is kept. -/
  | working
  /-- It is refused for lack of space. -/
  | full
  /-- It is refused because nobody reads. -/
  | broken
  deriving DecidableEq, Repr

/-- A stream and what it has taken. -/
structure Sink where
  condition : Condition
  content : Bytes
  deriving DecidableEq, Repr

/-- A stream after some bytes were written to it. -/
def Sink.write (sink : Sink) (bytes : Bytes) : Except Errno Sink :=
  match sink.condition with
  | .working => .ok { sink with content := sink.content ++ bytes }
  | .full => .error Errno.noSpace
  | .broken => .error Errno.brokenPipe

/-- What a descriptor is open on. -/
inductive Target where
  /-- A file, a directory, a device or a terminal. -/
  | file (id : FileId)
  /-- The end of a pipe that is read from. -/
  | readEnd (pipe : Nat)
  /-- The end of a pipe that is written to. -/
  | writeEnd (pipe : Nat)
  /-- An input that has ended. -/
  | noInput
  /-- One of the streams. -/
  | stream (s : Stream)
  deriving DecidableEq, Repr

/-- An open file, which descriptors refer to. -/
structure OpenFile where
  target : Target
  status : StatusWord
  /-- Where the next read or write takes place. -/
  offset : Nat
  /-- Whether it holds the lock of its file. -/
  locked : Bool
  deriving DecidableEq, Repr

/-- A descriptor in use. -/
structure Descriptor where
  /-- The open file that it refers to. -/
  openFile : Nat
  closeOnExec : Bool
  deriving DecidableEq, Repr

/-- A limit of descriptors.  Their numbers have 31 bits. -/
abbrev DescriptorLimit := Fin 0x80000000

/-- The host of a process. -/
structure Host where
  files : Files
  pipes : Array Pipe
  openFiles : Array OpenFile
  /-- The descriptors by number. -/
  descriptors : Array (Option Descriptor)
  output : Sink
  error : Sink
  /-- The numbers of descriptors that are given out are below it. -/
  limit : DescriptorLimit
  deriving Repr

namespace Host

/-- A call to the host. -/
abbrev Call := ExceptT Errno (StateM Host)

/-- A call that changes nothing if it is refused. -/
def orNothing {α : Type} (call : Call α) : Call α := do
  let h ← get
  try call
  catch e =>
    set h
    throw e

/-- The limit of descriptors that a process usually has. -/
def usualLimit : DescriptorLimit := 1024

/-- A host with some files, on which only the three standard descriptors are open. -/
def new (files : Files) : Host where
  files
  pipes := #[]
  openFiles := #[
    ⟨.noInput, StatusWord.ofAccess .readOnly, 0, false⟩,
    ⟨.stream .output, StatusWord.ofAccess .writeOnly, 0, false⟩,
    ⟨.stream .error, StatusWord.ofAccess .writeOnly, 0, false⟩]
  descriptors := #[some ⟨0, false⟩, some ⟨1, false⟩, some ⟨2, false⟩]
  output := ⟨.working, []⟩
  error := ⟨.working, []⟩
  limit := usualLimit

/-! ## Descriptors -/

/-- The descriptor with a number, if it is in use. -/
def descriptor? (h : Host) (fd : Int) : Option Descriptor :=
  if 0 ≤ fd then (h.descriptors[fd.toNat]?).join else none

def openFile? (h : Host) (fd : Int) : Option OpenFile :=
  (h.descriptor? fd).bind fun d => h.openFiles[d.openFile]?

def isOpen (h : Host) (fd : Int) : Bool :=
  (h.descriptor? fd).isSome

/-- Whether some descriptor refers to an open file with this target. -/
def isTargeted (h : Host) (target : Target) : Bool :=
  h.descriptors.any fun
    | some d => (h.openFiles[d.openFile]?).any (·.target == target)
    | none => false

/-- The lowest number that is not in use. -/
def freeNumber (h : Host) : Nat :=
  (h.descriptors.findIdx? (·.isNone)).getD h.descriptors.size

/-- Whether no further descriptor is given out. -/
def exhausted (h : Host) : Bool :=
  h.limit ≤ h.freeNumber

def place (h : Host) (number : Nat) (d : Descriptor) : Host :=
  if number < h.descriptors.size then
    { h with descriptors := h.descriptors.setIfInBounds number (some d) }
  else { h with descriptors := h.descriptors.push (some d) }

/-- Gives out a descriptor at the lowest free number. -/
def giveOut (d : Descriptor) : Call Nat := do
  let h ← get
  if h.exhausted then throw Errno.tooManyFiles
  let number := h.freeNumber
  set (h.place number d)
  return number

def install (file : OpenFile) (closeOnExec : Bool) : Call Nat := do
  let h ← get
  if h.exhausted then throw Errno.tooManyFiles
  set { h with openFiles := h.openFiles.push file }
  giveOut ⟨h.openFiles.size, closeOnExec⟩

/-- The open file that a number refers to, with the number of the open file. -/
def opened (fd : Int) : Call (Nat × OpenFile) := do
  let h ← get
  match h.descriptor? fd with
  | some d =>
    match h.openFiles[d.openFile]? with
    | some file => return (d.openFile, file)
    | none => throw Errno.badDescriptor
  | none => throw Errno.badDescriptor

def update (id : Nat) (file : OpenFile) : Call Unit :=
  modify fun h => { h with openFiles := h.openFiles.setIfInBounds id file }

def close (fd : Int) : Call Unit := do
  let h ← get
  if h.isOpen fd then
    set { h with descriptors := h.descriptors.setIfInBounds fd.toNat none }
  else throw Errno.badDescriptor

/-- A new descriptor, closed on exec, that refers to the same open file.  It is asked for
    with a number from zero on, and zero has to be below the limit. -/
def duplicate (fd : Int) : Call Nat := do
  let h ← get
  match h.descriptor? fd with
  | some d =>
    if h.limit = 0 then throw Errno.invalidArgument
    giveOut ⟨d.openFile, true⟩
  | none => throw Errno.badDescriptor

/-- Makes a number refer to the open file of another, closed on exec. -/
def replace (source target : Int) : Call Unit := do
  let h ← get
  match h.descriptor? source with
  | some d =>
    if 0 ≤ target ∧ target < h.limit then set (h.place target.toNat ⟨d.openFile, true⟩)
    else throw Errno.badDescriptor
  | none => throw Errno.badDescriptor

/-- The status word of the open file that a number refers to. -/
def status (fd : Int) : Call StatusWord := do
  let (_, file) ← opened fd
  return file.status

/-- Replaces the status word of the open file that a number refers to. -/
def setStatus (fd : Int) (word : StatusWord) : Call Unit := do
  let (id, file) ← opened fd
  update id { file with status := word }

/-! ## Opening -/

/-- How a file is opened. -/
structure OpenFlags where
  access : Access
  create : Bool := false
  exclusive : Bool := false
  truncate : Bool := false
  append : Bool := false
  directory : Bool := false
  nonblock : Bool := false
  deriving DecidableEq, Repr

/-- The status word of a file that is opened in a certain way. -/
def OpenFlags.status (flags : OpenFlags) : StatusWord :=
  StatusWord.ofAccess flags.access ||| StatusWord.largeFileBit |||
    (if flags.append then StatusWord.appendBit else 0) |||
    (if flags.nonblock then StatusWord.nonblockBit else 0) |||
    (if flags.directory then StatusWord.directoryBit else 0)

/-- The permission bits that a new file does not get. -/
def creationMask : Nat := 0o022

/-- Opens a file or directory that exists: refuses what its kind or its
    permission bits do not allow, and empties a file that is to be truncated. -/
def openExisting (id : FileId) (flags : OpenFlags) (asDirectory : Bool) : Call Unit := do
  let h ← get
  match h.files.node? id with
  | some (.directory _ _) =>
    if flags.create || flags.access.asksToWrite || flags.truncate then throw Errno.isDirectory
  | some (.file mode _) =>
    if asDirectory then throw Errno.notDirectory
    if !flags.access.isPermitted flags.truncate mode then throw Errno.permissionDenied
    if flags.truncate then
      set { h with files.nodes := h.files.nodes.setIfInBounds id (.file (modeAfterChange mode) []) }
  | some (.device _) | some (.terminal _) => if asDirectory then throw Errno.notDirectory
  | none => throw Errno.noEntry

/-- The file that a path leads to, created if that is asked for. -/
def locate (path : Bytes) (flags : OpenFlags) (mode : Nat) : Call FileId := do
  let h ← get
  let trailing := path.getLast? = some Path.slash
  match ← (h.files.locate path : Except Errno Files.Place) with
  | .bare id =>
    if flags.create && flags.exclusive then throw Errno.fileExists
    openExisting id flags true
    return id
  | .entry directory name =>
    if flags.create && trailing then throw Errno.isDirectory
    match h.files.step directory name with
    | .ok id =>
      if flags.create && flags.exclusive then throw Errno.fileExists
      openExisting id flags (trailing || flags.directory)
      return id
    | .error e =>
      if e = Errno.noEntry ∧ flags.create then
        let permissions := (mode &&& 0o7777) &&& (0o7777 ^^^ creationMask)
        let (id, files) := h.files.add directory name (.file permissions [])
        set { h with files }
        return id
      else throw e

/-- Opens a file.  The path itself is checked before a descriptor is, and a
    descriptor before the path is followed. -/
def openFile (path : Bytes) (flags : OpenFlags) (mode : Nat) : Call Nat := do
  if flags.create && flags.directory then throw Errno.invalidArgument
  Files.checkPath path
  if (← get).exhausted then throw Errno.tooManyFiles
  let id ← locate path flags mode
  install ⟨.file id, flags.status, 0, false⟩ true

/-- Makes a pipe, and opens its reading end and then its writing end. -/
def openEnds : Call (Nat × Nat) := do
  let h ← get
  let pipe := h.pipes.size
  set { h with pipes := h.pipes.push .empty }
  let readEnd ← install ⟨.readEnd pipe, StatusWord.ofAccess .readOnly, 0, false⟩ true
  let writeEnd ← install ⟨.writeEnd pipe, StatusWord.ofAccess .writeOnly, 0, false⟩ true
  return (readEnd, writeEnd)

/-- Opens a pipe: its reading end and its writing end, both closed on exec. -/
def openPipe : Call (Nat × Nat) :=
  orNothing openEnds

/-! ## Terminals -/

def terminalDirectory : Bytes := Path.ofText "/dev/pts/"

/-- Makes a terminal; gives a descriptor for each of its sides, the second one
    read-only and kept on exec. -/
def openTerminal : Call (Nat × Nat) := orNothing do
  let h ← get
  let name := Path.ofText (toString h.files.terminals)
  let path := terminalDirectory ++ name
  let (directory, files) := h.files.ensure 0 (Files.names terminalDirectory)
  let (id, files) := files.add directory name (.terminal (.new path))
  set { h with files }
  let controlling ← install ⟨.file id, StatusWord.ofAccess .readWrite, 0, false⟩ true
  let controlled ← install ⟨.file id, StatusWord.ofAccess .readOnly, 0, false⟩ false
  return (controlling, controlled)

/-- The path of the terminal that a descriptor is open on. -/
def terminalName (fd : Int) : Call Bytes := do
  let (_, file) ← opened fd
  match file.target with
  | .file id =>
    match (← get).files.node? id with
    | some (.terminal t) => return t.path
    | _ => throw Errno.notTerminal
  | _ => throw Errno.notTerminal

/-! ## Reading and writing -/

/-- Reads up to `limit` bytes, none at the end. -/
def read (fd : Int) (limit : Nat) : Call Bytes := do
  let (id, file) ← opened fd
  if !file.status.access.mayRead then throw Errno.badDescriptor
  let h ← get
  match file.target with
  | .file node =>
    match h.files.node? node with
    | some (.file _ content) =>
      let bytes := (content.drop file.offset).take limit
      update id { file with offset := file.offset + bytes.length }
      return bytes
    | some (.directory _ _) => throw Errno.isDirectory
    | some (.device d) => return d.read limit
    | some (.terminal _) => throw Errno.wouldBlock
    | none => throw Errno.badDescriptor
  | .readEnd pipe =>
    match h.pipes[pipe]? with
    | some p =>
      let (bytes, p) := p.read limit
      set { h with pipes := h.pipes.setIfInBounds pipe p }
      if bytes = [] ∧ limit ≠ 0 ∧ h.isTargeted (.writeEnd pipe) then throw Errno.wouldBlock
      return bytes
    | none => throw Errno.badDescriptor
  | .noInput => return []
  | .writeEnd _ | .stream _ => throw Errno.badDescriptor

/-- A file's content with some bytes written at a position; what lies between
    the end and the position becomes zero. -/
def overwrite (content : Bytes) (position : Nat) (bytes : Bytes) : Bytes :=
  content.take position ++ Bytes.filled (position - content.length) 0 ++ bytes ++
    content.drop (position + bytes.length)

/-- Writes some bytes, and says how many were taken. -/
def write (fd : Int) (bytes : Bytes) : Call Nat := do
  let (id, file) ← opened fd
  if !file.status.access.mayWrite then throw Errno.badDescriptor
  let h ← get
  match file.target with
  | .file node =>
    match h.files.node? node with
    | some (.file mode content) =>
      let position := if file.status.has StatusWord.appendBit then content.length else file.offset
      let content := overwrite content position bytes
      set { h with
        files.nodes := h.files.nodes.setIfInBounds node (.file (modeAfterChange mode) content) }
      update id { file with offset := position + bytes.length }
      return bytes.length
    | some (.directory _ _) => throw Errno.badDescriptor
    | some (.device d) => d.write bytes
    | some (.terminal t) =>
      let (count, t) := t.write bytes
      if count = 0 ∧ bytes ≠ [] then throw Errno.wouldBlock
      set { h with files.nodes := h.files.nodes.setIfInBounds node (.terminal t) }
      return count
    | none => throw Errno.badDescriptor
  | .writeEnd pipe =>
    match h.pipes[pipe]? with
    | some p =>
      if !h.isTargeted (.readEnd pipe) then throw Errno.brokenPipe
      let (count, p) := p.write bytes
      if count = 0 ∧ bytes ≠ [] then throw Errno.wouldBlock
      set { h with pipes := h.pipes.setIfInBounds pipe p }
      return count
    | none => throw Errno.badDescriptor
  | .stream .output =>
    let sink ← h.output.write bytes
    set { h with output := sink }
    return bytes.length
  | .stream .error =>
    let sink ← h.error.write bytes
    set { h with error := sink }
    return bytes.length
  | .noInput | .readEnd _ => throw Errno.badDescriptor

/-! ## File locks -/

/-- Takes the lock of the file that a descriptor is open on. -/
def lock (fd : Int) : Call Unit := do
  let (id, file) ← opened fd
  update id { file with locked := true }

def unlock (fd : Int) : Call Unit := do
  let (id, file) ← opened fd
  update id { file with locked := false }

/-- Whether an open file that is still referred to holds the lock of a file. -/
def isLocked (h : Host) (id : FileId) : Bool :=
  h.descriptors.any fun
    | some d => (h.openFiles[d.openFile]?).any fun f => f.locked && f.target == .file id
    | none => false

end Host

end ScopedResources
