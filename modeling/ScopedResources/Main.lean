/-
  The command line program.

  Everything that an invocation can look at is gathered first: the files that
  its arguments and variables name.  What is left afterwards is written out:
  the two streams, and a lock file that did not exist before.
-/
import ScopedResources.Command.Invocation

namespace ScopedResources.CommandLine

/-- The beginnings of a path that end before a slash, and the whole path. -/
def beginnings (path : String) : List String :=
  let parts := path.splitOn "/"
  let counts := (List.range parts.length).map (· + 1)
  (counts.map fun n => "/".intercalate (parts.take n)).filter (· ≠ "")

def directoryCode : UInt32 := 21

/-- Adds what a path leads to, if it leads to anything that can be read and is
    not there yet. -/
def gather (files : Files) (path : String) : IO Files := do
  if let .ok _ := files.find (Path.ofText path) then return files
  try
    let content ← IO.FS.readBinFile path
    return files.addFile (Path.ofText path) 0o644 content.toList
  catch
    | .inappropriateType _ code _ =>
      return if code = directoryCode then files.addDirectory (Path.ofText path) else files
    | _ => return files

/-- Adds what some paths lead to, with what is met on the way. -/
def gatherAll (paths : List String) : IO Files := do
  let start := Files.standard.workIn (Path.ofText "/work")
  (paths.flatMap beginnings).eraseDups.foldlM gather start

/-- The number of this process, by what the system tells about it. -/
def processNumber : IO Nat := do
  try
    let status ← IO.FS.readFile "/proc/self/stat"
    return ((status.splitOn " ").headD "").toNat?.getD 0
  catch _ => return 0

def settings : IO (List (String × Bytes)) := do
  let names := [Config.logVariable, Config.debugLockVariable, Config.ignoreSigpipeVariable]
  names.filterMapM fun name => do
    return (← IO.getEnv name).map fun value => (name, Utf8.encode value)

def create (before after : Files) (path : String) : IO Unit := do
  let bytes := Path.ofText path
  match before.find bytes, after.find bytes with
  | .error _, .ok id =>
    if let some (.file _ content) := after.node? id then
      IO.FS.writeBinFile path ⟨content.toArray⟩
  | _, _ => return

end ScopedResources.CommandLine

open ScopedResources in
/-- Runs the program on the arguments and variables of this process. -/
def main (args : List String) : IO UInt32 := do
  let set ← CommandLine.settings
  let lockPath := ((set.lookup Config.debugLockVariable).bind Utf8.decode?).getD
    (Path.display Config.default.debugLockPath)
  let files ← CommandLine.gatherAll (lockPath :: args)
  let outcome := Invocation.run
    { calledAs := Path.ofText (← IO.appPath).toString
      arguments := args.map Utf8.encode
      setting? := fun name => set.lookup name
      host := Host.new files
      identity := Invocation.identityOf (← CommandLine.processNumber)
      time := "-" }
  CommandLine.create files outcome.host.files lockPath
  (← IO.getStdout).write ⟨outcome.host.output.content.toArray⟩
  (← IO.getStderr).write ⟨outcome.host.error.content.toArray⟩
  return outcome.status.toUInt32
