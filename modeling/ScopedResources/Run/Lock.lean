/-
  Debug locks: an exclusive lock on a file, held while any scope that acquired
  it is alive.

  Acquisitions nest; the first takes the file lock and the end of the last one
  gives it back.  The file is opened when it is first needed and kept open.  If
  it cannot be opened or locked, a warning is logged and debug lines are written
  all the same.

  * `Run.newLock`, `Run.cloneLock`, `Run.acquireLock`
  * `Run.debugPrint` writes a line to standard error under the lock.
-/
import ScopedResources.Config
import ScopedResources.Run.Descriptor
import ScopedResources.SetupError

namespace ScopedResources.Run

def newLock (path : Bytes) : Run LockId :=
  modifyGet fun w => (w.locks.size, { w with locks := w.locks.push ⟨path, none, 0, 1⟩ })

def newLockFor (config : Config) : Run LockId :=
  newLock config.debugLockPath

def cloneLock (lock : LockId) : Run Unit :=
  modify fun w =>
    { w with locks := w.locks.modify lock fun s => { s with references := s.references + 1 } }

def lockState (lock : LockId) : Run DebugLock :=
  return ((← get).locks[lock]?).getD ⟨[], none, 0, 0⟩

/-- How many acquisitions are alive. -/
def lockLevel (lock : LockId) : Run UInt32 :=
  return (← lockState lock).level

/-- The permission bits of a lock file. -/
def lockFileMode : Nat := 0o644

/-- Opens the file of a debug lock, created if it is missing. -/
def openLockFile (path : Bytes) : Run (Except SetupError Nat) := do
  if path.contains 0 then
    return .error (.fileSystem path "open"
      (.custom .invalidInput "file name contained an unexpected NUL byte"))
  match ← host (Host.openFile path ⟨.readWrite, true, false, false, false, false, false⟩
      lockFileMode) with
  | .ok fd => return .ok fd
  | .error e => return .error (.fileSystem path "open" (.os e))

/-- The open file of a debug lock, opened now if it was not before. -/
def lockFile (lock : LockId) : Run (Option Nat) := do
  let state ← lockState lock
  match state.file with
  | some fd => return some fd
  | none =>
    match ← openLockFile state.path with
    | .ok fd =>
      modify fun w => { w with locks := w.locks.modify lock fun s => { s with file := some fd } }
      return some fd
    | .error e =>
      log (.unserialized e.message)
      return none

/-- Takes the lock of an open file that belongs to a debug lock. -/
def takeLock (lock : LockId) (fd : Nat) : Run Unit := do
  match ← host (Host.lock fd) with
  | .ok () => return
  | .error e =>
    log (.lockRefused (Path.display (← lockState lock).path) (IoError.os e).message)

/-- Acquires a debug lock until the current scope is torn down. -/
def acquireLock (k : ContextId) (lock : LockId) : Run Unit := do
  let record ← reserve k
  let file ← lockFile lock
  if (← lockLevel lock) = 0 then
    if let some fd := file then takeLock lock fd
  modify fun w => { w with
    locks := w.locks.modify lock fun s =>
      { s with level := s.level + 1, references := s.references + 1 } }
  commit k record (.leaveLock lock)

def standardError : Int := 2

def debugLine (program identity : String) (f : Format) : Format :=
  (f.prepend (program ++ "(" ++ identity ++ "): ")).append "\n"

/-- Writes some bytes to standard error; one that is not open takes them all. -/
def writeStandardError (bytes : Bytes) : Run (Except IoError Unit) := do
  match ← writeWithin standardError bytes.length bytes with
  | .ok () => return .ok ()
  | .error e => return if e = .os Errno.badDescriptor then .ok () else .error e

/-- Writes a message to standard error while the lock is held, after the
    program's name and the number of the process. -/
def debugPrint (k : ContextId) (lock : LockId) (f : Format) : Run Unit :=
  withScope k do
    acquireLock k lock
    let program ← view k (·.program)
    let text ← format k (debugLine program (← get).identity f)
    let bytes := Utf8.encode ((← view k (·.text? text)).getD "")
    match ← writeStandardError bytes with
    | .ok () => return
    | .error e => throwing (failIo k e (.rendered "write(stderr)" false))

end ScopedResources.Run
