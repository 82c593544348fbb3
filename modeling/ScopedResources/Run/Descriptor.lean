/-
  Operations on descriptors, which raise failures through a context.

  * `Run.blockingMode` and `Run.setBlockingMode`: one bit of the status word.
  * `Run.readToEnd`, `Run.readExact`, `Run.writeAll`; no descriptor has the
    number `-1`, and these three panic on it.
  * `Run.reopenTerminal` replaces a terminal's descriptor by one that may be
    read and written.
-/
import ScopedResources.Run.Acquire

namespace ScopedResources

/-- Whether reads and writes on a descriptor may wait. -/
inductive BlockingMode where
  | blocking
  | nonblocking
  deriving DecidableEq, Repr

def BlockingMode.ofStatus (word : StatusWord) : BlockingMode :=
  if word &&& StatusWord.nonblockBit ≠ 0 then .nonblocking else .blocking

/-- A status word with the bit for a mode, and all others as they are. -/
def BlockingMode.apply (mode : BlockingMode) (word : StatusWord) : StatusWord :=
  match mode with
  | .blocking => word &&& ~~~StatusWord.nonblockBit
  | .nonblocking => word ||| StatusWord.nonblockBit

namespace Run

/-! ## Blocking -/

def statusWord (k : ContextId) (fd : Int) : Run StatusWord := do
  granted k (return "fcntl(" ++ (← describe fd) ++ ", F_GETFL)") (← host (Host.status fd))

def blockingMode (k : ContextId) (fd : Int) : Run BlockingMode :=
  return .ofStatus (← statusWord k fd)

/-- Switches a descriptor to a mode; gives the mode before.  The word is not
    stored when nothing changes. -/
def setBlockingMode (k : ContextId) (fd : Int) (mode : BlockingMode) : Run BlockingMode := do
  let word ← statusWord k fd
  let previous := BlockingMode.ofStatus word
  if previous ≠ mode then
    granted k (return "fcntl(" ++ (← describe fd) ++ ", F_SETFL)")
      (← host (Host.setStatus fd (mode.apply word)))
  return previous

/-! ## Reading and writing -/

/-- The number that no descriptor has. -/
def checkPossible (fd : Int) : Run Unit := do
  if fd = -1 then throw (.panic .impossibleDescriptor)

def readingText (fd : Int) : Run String :=
  return "read(" ++ (← describe fd) ++ ")"

def writingText (fd : Int) : Run String :=
  return "write(" ++ (← describe fd) ++ ")"

/-- More than any read can give. -/
def unlimited : Nat := Nat.pow 2 63

/-- Reads until the end.  A read without a limit takes all that is there, so a
    second one meets the end or an error. -/
def readToEnd (k : ContextId) (fd : Int) : Run Bytes := do
  checkPossible fd
  let bytes ← granted k (readingText fd) (← host (Host.read fd unlimited))
  if bytes = [] then return []
  let more ← granted k (readingText fd) (← host (Host.read fd unlimited))
  return bytes ++ more

/-- Reads exactly `count` bytes; an input that ends before is a failure.  What
    was read before an error is lost. -/
def readExact (k : ContextId) (fd : Int) (count : Nat) : Run Bytes := do
  checkPossible fd
  if count = 0 then return []
  let bytes ← granted k (readingText fd) (← host (Host.read fd count))
  if bytes.length = count then return bytes
  let more ←
    if bytes = [] then pure []
    else granted k (readingText fd) (← host (Host.read fd (count - bytes.length)))
  if bytes.length + more.length = count then return bytes ++ more
  throwing (failIo k .shortRead (.rendered (← readingText fd) false))

/-- Writes until nothing is left; the first argument bounds the number of
    writes, of which each takes a byte at least. -/
def writeWithin (fd : Int) : Nat → Bytes → Run (Except IoError Unit)
  | 0, bytes => return if bytes = [] then .ok () else .error .writeStalled
  | bound + 1, bytes => do
    if bytes = [] then return .ok ()
    match ← host (Host.write fd bytes) with
    | .ok 0 => return .error .writeStalled
    | .ok count => writeWithin fd bound (bytes.drop count)
    | .error e => return .error (.os e)

/-- Writes all of some bytes. -/
def writeAll (k : ContextId) (fd : Int) (bytes : Bytes) : Run Unit := do
  checkPossible fd
  match ← writeWithin fd bytes.length bytes with
  | .ok () => return
  | .error e => throwing (failIo k e (.rendered (← writingText fd) false))

/-! ## Terminals -/

/-- Replaces a terminal's descriptor by a fresh one on the same terminal, which
    may be read and written and is closed on exec. -/
def reopenTerminal (k : ContextId) (fd : Int) : Run Unit := do
  let path ← granted k (return "ttyname_r(" ++ (← describe fd) ++ ")")
    (← host (Host.terminalName fd))
  withScope k do
    let fresh ← openFile k (Path.ofText (Path.display path)) ⟨.readWrite, false, false, false,
      false, false, false⟩ 0
    granted k (return "dup3(" ++ (← describe fresh) ++ ", " ++ (← describe fd) ++ ")")
      (← host (Host.replace fresh fd))

end Run

end ScopedResources
