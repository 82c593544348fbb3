/-
  Errors met outside of any protected call: configuration, logging, and the
  files that belong to them.

  * `SetupError.message` words an error.
  * `SetupError.source?` is the text of the error behind it, where there is one.
  * `SetupError.within` puts an error into a context; what it wraps survives
    only as text.
-/
import ScopedResources.OsError
import ScopedResources.Path
import ScopedResources.Json.Reader

namespace ScopedResources

/-- An error met before the first protected call, or in what belongs to none. -/
inductive SetupError where
  /-- The configuration cannot be used. -/
  | configuration (message : String)
  /-- A variable holds a value that cannot be read. -/
  | invalidValue (variableName value message : String)
  /-- An operation on a file was refused. -/
  | fileSystem (path : Bytes) (operation : String) (source : IoError)
  /-- The log cannot be set up. -/
  | logging (message : String)
  /-- A text is no JSON value. -/
  | json (message : String)
  deriving DecidableEq, Repr

namespace SetupError

def message : SetupError → String
  | configuration m => "configuration error: " ++ m
  | invalidValue n v m => "invalid value '" ++ v ++ "' for " ++ n ++ ": " ++ m
  | fileSystem path operation source =>
    "file system " ++ operation ++ " operation failed for '" ++ Path.display path ++ "': " ++
      source.message
  | logging m => "failed to initialise tracing: " ++ m
  | json m => "JSON error: " ++ m

def source? : SetupError → Option String
  | fileSystem _ _ source => some source.message
  | json m => some m
  | configuration _ | invalidValue _ _ _ | logging _ => none

/-- The error in a context, told before it. -/
def within (context : String) (e : SetupError) : SetupError :=
  .configuration (context ++ ": " ++ e.message)

/-- An input or output error about which nothing else is known. -/
def ofIo (source : IoError) : SetupError :=
  .fileSystem [] "unknown" source

def ofFault (fault : Json.Fault) (text : String) : SetupError :=
  .json (fault.message text)

end SetupError

end ScopedResources
