/-
  Errors that the host reports, and the input and output errors built on them.

  * `Errno` is the number of a host error; `Errno.description` its text.
  * `IoError` is an error with a host number, a bare kind, or a kind with a
    message of its own; only the first has a code other than `0`.
-/

namespace ScopedResources

/-- The number of a host error. -/
abbrev Errno := Int

namespace Errno

/-- No such file or directory. -/
def noEntry : Errno := 2
/-- Bad file descriptor. -/
def badDescriptor : Errno := 9
/-- Resource temporarily unavailable: the call would have to wait. -/
def wouldBlock : Errno := 11
/-- Cannot allocate memory. -/
def noMemory : Errno := 12
/-- Permission denied. -/
def permissionDenied : Errno := 13
/-- File exists. -/
def fileExists : Errno := 17
/-- Not a directory. -/
def notDirectory : Errno := 20
/-- Is a directory. -/
def isDirectory : Errno := 21
/-- Invalid argument. -/
def invalidArgument : Errno := 22
/-- Too many open files. -/
def tooManyFiles : Errno := 24
/-- Inappropriate ioctl for device: the descriptor is no terminal. -/
def notTerminal : Errno := 25
/-- No space left on device. -/
def noSpace : Errno := 28
/-- Broken pipe: nobody reads what would be written. -/
def brokenPipe : Errno := 32
/-- File name too long. -/
def nameTooLong : Errno := 36
/-- Message too long. -/
def messageTooLong : Errno := 90

def description (n : Errno) : String :=
  match n with
  | 0 => "Success"
  | 1 => "Operation not permitted"
  | 2 => "No such file or directory"
  | 3 => "No such process"
  | 4 => "Interrupted system call"
  | 5 => "Input/output error"
  | 6 => "No such device or address"
  | 7 => "Argument list too long"
  | 8 => "Exec format error"
  | 9 => "Bad file descriptor"
  | 10 => "No child processes"
  | 11 => "Resource temporarily unavailable"
  | 12 => "Cannot allocate memory"
  | 13 => "Permission denied"
  | 14 => "Bad address"
  | 15 => "Block device required"
  | 16 => "Device or resource busy"
  | 17 => "File exists"
  | 18 => "Invalid cross-device link"
  | 19 => "No such device"
  | 20 => "Not a directory"
  | 21 => "Is a directory"
  | 22 => "Invalid argument"
  | 23 => "Too many open files in system"
  | 24 => "Too many open files"
  | 25 => "Inappropriate ioctl for device"
  | 26 => "Text file busy"
  | 27 => "File too large"
  | 28 => "No space left on device"
  | 29 => "Illegal seek"
  | 30 => "Read-only file system"
  | 31 => "Too many links"
  | 32 => "Broken pipe"
  | 33 => "Numerical argument out of domain"
  | 34 => "Numerical result out of range"
  | 35 => "Resource deadlock avoided"
  | 36 => "File name too long"
  | 37 => "No locks available"
  | 38 => "Function not implemented"
  | 39 => "Directory not empty"
  | 40 => "Too many levels of symbolic links"
  | 90 => "Message too long"
  | 95 => "Operation not supported"
  | 98 => "Address already in use"
  | 103 => "Software caused connection abort"
  | 104 => "Connection reset by peer"
  | 105 => "No buffer space available"
  | 110 => "Connection timed out"
  | 111 => "Connection refused"
  | 122 => "Disk quota exceeded"
  | 133 => "Memory page has hardware error"
  | n => "Unknown error " ++ toString n

end Errno

/-- The kinds of input and output errors. -/
inductive IoErrorKind where
  | notFound
  | permissionDenied
  | alreadyExists
  | invalidInput
  | invalidData
  | timedOut
  | writeZero
  | interrupted
  | unexpectedEof
  | outOfMemory
  | brokenPipe
  | wouldBlock
  | other
  deriving DecidableEq, Repr

def IoErrorKind.description : IoErrorKind → String
  | notFound => "entity not found"
  | permissionDenied => "permission denied"
  | alreadyExists => "entity already exists"
  | invalidInput => "invalid input parameter"
  | invalidData => "invalid data"
  | timedOut => "timed out"
  | writeZero => "write zero"
  | interrupted => "operation interrupted"
  | unexpectedEof => "unexpected end of file"
  | outOfMemory => "out of memory"
  | brokenPipe => "broken pipe"
  | wouldBlock => "operation would block"
  | other => "other error"

/-- An input or output error. -/
inductive IoError where
  /-- The host refused a call with this number. -/
  | os (number : Errno)
  /-- A kind without further words. -/
  | kind (kind : IoErrorKind)
  /-- A kind with a message of its own. -/
  | custom (kind : IoErrorKind) (message : String)
  deriving DecidableEq, Repr

namespace IoError

/-- The host's number, `0` when there is none. -/
def code : IoError → Errno
  | os n => n
  | kind _ | custom _ _ => 0

def message : IoError → String
  | os n => n.description ++ " (os error " ++ toString n ++ ")"
  | kind k => k.description
  | custom _ m => m

/-- The input ended before a read that had to be complete was. -/
def shortRead : IoError :=
  .custom .unexpectedEof "failed to fill whole buffer"

def writeStalled : IoError :=
  .custom .writeZero "failed to write whole buffer"

end IoError

end ScopedResources
