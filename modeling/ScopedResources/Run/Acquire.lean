/-
  Acquiring something for the current scope, or failing.

  Each operation reserves its record before it tries, so that a failed attempt
  leaves a record that releases nothing.

  * `Run.alloc`, `Run.format`, `Run.duplicateText` give the record that owns a
    block or a text.
  * `Run.openFile`, `Run.openPipe`, `Run.duplicate` give descriptors that the
    current scope closes.
-/
import ScopedResources.Run.Record

namespace ScopedResources.Run

/-! ## Payloads -/

def alloc (k : ContextId) (size : Nat) : Run Index := do
  let record ← reserve k
  if Block.limit ≤ size then throwing (failNoMemory k)
  commit k record (.forget (.block (.zeroed size)))
  return record

def format (k : ContextId) (f : Format) : Run Index := do
  let record ← reserve k
  match f.complete? with
  | some text =>
    commit k record (.forget (.text text))
    return record
  | none => throwing (fail k Errno.invalidArgument (.literal Format.invalid))

def duplicateText (k : ContextId) (text : String) : Run Index :=
  format k (.rendered text false)

/-- Writes a byte of a block; gives the byte that was there before.  The outer
    option says whether the block is alive, the inner one whether the position
    is in it. -/
def setByte (k : ContextId) (record : Index) (position : Nat) (byte : UInt8) :
    Run (Option (Option UInt8)) := do
  match ← view k (·.block? record) with
  | some block =>
    let _ ← onTree k (·.commit record (.forget (.block (block.set position byte))))
    return some (block.get? position)
  | none => return none

/-! ## Descriptors -/

/-- Makes the record's scope responsible for a descriptor. -/
def commitClose (k : ContextId) (record : Index) (fd : Int) : Run Unit :=
  commit k record (.close fd)

def openingText (path : Bytes) : String :=
  "open(\"" ++ Path.display path ++ "\")"

/-- Opens a file, closed on exec. -/
def openFile (k : ContextId) (path : Bytes) (flags : Host.OpenFlags) (mode : Nat) : Run Nat := do
  let record ← reserve k
  if path.contains 0 then
    throwing (fail k Errno.invalidArgument
      (.rendered (openingText path ++ ": path contains a NUL byte") false))
  let fd ← granted k (return openingText path) (← host (Host.openFile path flags mode))
  commitClose k record fd
  return fd

/-- Opens a pipe, closed on exec; gives its reading end and its writing end. -/
def openPipe (k : ContextId) : Run (Nat × Nat) := do
  let readRecord ← reserve k
  let writeRecord ← reserve k
  let (readEnd, writeEnd) ← granted k (return "pipe2") (← host Host.openPipe)
  commitClose k readRecord readEnd
  commitClose k writeRecord writeEnd
  return (readEnd, writeEnd)

/-- Duplicates a descriptor, closed on exec. -/
def duplicate (k : ContextId) (fd : Int) : Run Nat := do
  let record ← reserve k
  let copy ← granted k (return "fcntl(" ++ (← describe fd) ++ ", F_DUPFD_CLOEXEC)")
    (← host (Host.duplicate fd))
  commitClose k record copy
  return copy

end ScopedResources.Run
