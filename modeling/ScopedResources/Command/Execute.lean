/-
  What each command does, in a context in which failures may be raised.

  Standard output is the descriptor with the number `1`, on which nothing is
  written before everything that a command needs has been acquired.
-/
import ScopedResources.Command.Arguments
import ScopedResources.Config.Json
import ScopedResources.Run.Handle
import ScopedResources.Run.Lock

namespace ScopedResources.Command

def standardOutput : Int := 1

/-- Opening a file only to read it. -/
def forReading : Host.OpenFlags where
  access := .readOnly

/-- Opens all files, then writes what each of them holds. -/
def copyFiles (k : ContextId) (files : List Bytes) : Run Unit := do
  let fds ← files.mapM fun path => Run.openFile k path forReading 0
  fds.forM fun fd => do Run.writeAll k standardOutput (← Run.readToEnd k fd)

/-- The most bytes that are sent through a pipe: as many as an empty pipe takes
    in one go. -/
def messageLimit : Nat := 4096

/-- Sends a message and a line's end through a pipe, and writes what comes out. -/
def sendMessage (k : ContextId) (message : String) : Run Unit :=
  Run.withScope k do
    let line ← Run.format k (.rendered (message ++ "\n") false)
    let bytes := Utf8.encode ((← Run.view k (·.text? line)).getD "")
    if messageLimit < bytes.length then
      Run.throwing (Run.fail k Errno.messageTooLong
        (.rendered ("message longer than " ++ toString messageLimit ++ " bytes") false))
    let (readEnd, writeEnd) ← Run.openPipe k
    Run.writeAll k writeEnd bytes
    Run.writeAll k standardOutput (← Run.readExact k readEnd bytes.length)

/-- Reads a file through a duplicate of its descriptor, which is released on
    its own before anything is written. -/
def copyThroughDuplicate (k : ContextId) (file : Bytes) : Run Unit := do
  let fd ← Run.openFile k file forReading 0
  let copy ← Run.duplicateHandle k fd
  let bytes ← Run.readToEnd k copy.value
  let _ ← Run.destroyHandle k copy
  let _ ← Run.blockingMode k fd
  Run.writeAll k standardOutput bytes

/-- Writes a message to standard error under the debug lock, which is given up
    however that ends. -/
def printDebug (k : ContextId) (config : Config) (message : String) : Run Unit := do
  let lock ← Run.newLockFor config
  try
    Run.debugPrint k lock (.rendered message false)
  finally
    Run.dropLock lock

def showConfig (k : ContextId) (config : Config) : Run Unit := do
  match config.render with
  | .ok json =>
    let text ← Run.format k (.rendered (json ++ "\n") false)
    Run.writeAll k standardOutput (Utf8.encode ((← Run.view k (·.text? text)).getD ""))
  | .error e => Run.throwing (Run.fail k Errno.invalidArgument (.rendered e.message false))

def execute (k : ContextId) (config : Config) : Command → Run Unit
  | cat files => copyFiles k files
  | pipe message => sendMessage k message
  | dup file => copyThroughDuplicate k file
  | dbg message => printDebug k config message
  | .config => showConfig k config

end ScopedResources.Command
