/-
  What an open file allows, and what a file allows those who open it.

  A descriptor may be open for reading, for writing, for both, or for control
  only.  The last asks for as much as both when the file is opened, but then
  allows neither.

  * `Access.isPermitted` checks what is asked for against the permission bits
    of a file, as they bind its owner.
  * `StatusWord` is the word that an open file keeps of how it was opened.
-/

namespace ScopedResources

/-! ## Access -/

/-- What an open file allows. -/
inductive Access where
  | readOnly
  | writeOnly
  | readWrite
  | controlOnly
  deriving DecidableEq, Repr

namespace Access

def mayRead : Access → Bool
  | readOnly | readWrite => true
  | writeOnly | controlOnly => false

def mayWrite : Access → Bool
  | writeOnly | readWrite => true
  | readOnly | controlOnly => false

/-- Whether the right to read has to be there for opening. -/
def asksToRead : Access → Bool
  | readOnly | readWrite | controlOnly => true
  | writeOnly => false

/-- Whether the right to write has to be there for opening. -/
def asksToWrite : Access → Bool
  | writeOnly | readWrite | controlOnly => true
  | readOnly => false

end Access

/-! ## Permission bits -/

/-- Whether permission bits let the owner read. -/
def isReadable (mode : Nat) : Bool :=
  mode &&& 0o400 != 0

/-- Whether permission bits let the owner write. -/
def isWritable (mode : Nat) : Bool :=
  mode &&& 0o200 != 0

/-- Whether permission bits let the owner open a file; emptying it is writing. -/
def Access.isPermitted (access : Access) (truncate : Bool) (mode : Nat) : Bool :=
  (!access.asksToRead || isReadable mode) &&
    (!(access.asksToWrite || truncate) || isWritable mode)

/-- The permission bits after a change of a file's content: whoever runs the file
    no longer gets the rights of its owner or group. -/
def modeAfterChange (mode : Nat) : Nat :=
  let mode := mode &&& 0o3777
  if mode &&& 0o2010 = 0o2010 then mode &&& 0o1777 else mode

/-! ## Status words -/

/-- The status word of an open file: what it allows, and how it behaves. -/
abbrev StatusWord := UInt32

namespace StatusWord

/-- The bit of a status word for writes that go to the end. -/
def appendBit : StatusWord := 0x400
/-- The bit of a status word for calls that do not wait. -/
def nonblockBit : StatusWord := 0x800
/-- The bit of a status word for files of any size. -/
def largeFileBit : StatusWord := 0x8000
/-- The bit of a status word for what was opened as a directory. -/
def directoryBit : StatusWord := 0x10000

def access (w : StatusWord) : Access :=
  if w &&& 3 = 0 then .readOnly
  else if w &&& 3 = 1 then .writeOnly
  else if w &&& 3 = 2 then .readWrite
  else .controlOnly

def ofAccess : Access → StatusWord
  | .readOnly => 0
  | .writeOnly => 1
  | .readWrite => 2
  | .controlOnly => 3

/-- Whether all bits of a mask are set. -/
def has (w mask : StatusWord) : Bool :=
  w &&& mask == mask

end StatusWord

end ScopedResources
