/-
  An invocation of the program, from its arguments to its exit.

  Arguments are understood first, then the configuration is loaded, then the
  log is set up; whatever goes wrong there ends the invocation before there is
  a context.  A command then runs in one protected call, whose report is the
  last thing on standard error.

  * `Invocation.run` is the exit status and the host that is left.
-/
import ScopedResources.Command.Execute
import ScopedResources.Config.Load
import ScopedResources.Run.Protected

namespace ScopedResources

/-- An invocation of the program. -/
structure Invocation where
  /-- The name that the program was called by. -/
  calledAs : Bytes
  arguments : List Bytes
  /-- The value of a variable, if it is set. -/
  setting? : String → Option Bytes
  host : Host
  /-- The number of the process. -/
  identity : String
  /-- The time that lines of the log show. -/
  time : String

/-- How an invocation ended. -/
structure Outcome where
  status : Nat
  host : Host

namespace Invocation

/-- The exit status when all went well. -/
def successStatus : Nat := 0

/-- The exit status after a failure. -/
def failureStatus : Nat := 1

/-- The exit status when the arguments are not understood. -/
def usageStatus : Nat := 2

/-- The exit status after a panic. -/
def panicStatus : Nat := 101

def abortStatus : Nat := 134

def versionLine : String := "unwound 0.1.0\n"

/-- What is said about arguments that are not understood. -/
def usageLine : String :=
  "usage: unwound (cat FILE... | pipe MESSAGE | dup FILE | dbg MESSAGE | config)"

def filterFault : String := "invalid filter directive"

/-- The number of a process as debug lines show it: at least four digits. -/
def identityOf (number : Nat) : String :=
  let digits := toString number
  String.ofList (List.replicate (4 - digits.length) '0') ++ digits

/-- The program's name: the last part of what it was called by. -/
def programName (inv : Invocation) : String :=
  match Path.fileName? inv.calledAs with
  | some name => Utf8.lossy name
  | none => defaultProgramName

/-- The value of a variable that is a text; any other counts as unset. -/
def lookup (inv : Invocation) : Config.Lookup := fun name =>
  (inv.setting? name).bind Utf8.decode?

/-- The configuration, and the filter of the log. -/
def settings (inv : Invocation) : Except SetupError (Config × LogFilter) := do
  let config ← (Config.load inv.lookup).1
  match LogFilter.parse? config.logFilter with
  | some filter => return (config, filter)
  | none =>
    throw (.logging ("invalid filter '" ++ config.logFilter ++ "': " ++ filterFault))

/-- Writes a line to standard error. -/
def complain (host : Host) (text : String) : Except Errno Host := do
  let error ← host.error.write (Utf8.encode (text ++ "\n"))
  return { host with error }

/-- Ends with a line about what went wrong; with a panic if it cannot be written. -/
def fail (host : Host) (text : String) : Outcome :=
  match complain host text with
  | .ok host => ⟨failureStatus, host⟩
  | .error _ => ⟨panicStatus, host⟩

/-- Ends with a line about the arguments, if it can be written. -/
def refuse (host : Host) : Outcome :=
  match complain host usageLine with
  | .ok host => ⟨usageStatus, host⟩
  | .error _ => ⟨usageStatus, host⟩

/-- Tells a report, and gives the exit status. -/
def tell (report : Report) : Run Nat :=
  modifyGet fun w =>
    let outcome := fail w.host report.display
    (outcome.status, { w with host := outcome.host })

/-- Executes a command in a context of its own, and gives the exit status.  The context
    is dropped also if the report cannot be told. -/
def execute (command : Command) (config : Config) (program : String) : Run Nat := do
  let k ← Run.newContext program
  let status ←
    match ← Run.protect k .message (command.execute k config) with
    | .ok () => pure successStatus
    | .error report => tell report
  Run.dropContext k
  return status

def run (inv : Invocation) : Outcome :=
  match Request.ofArguments? inv.arguments with
  | none => refuse inv.host
  | some .version =>
    match inv.host.output.write (Utf8.encode versionLine) with
    | .ok output => ⟨successStatus, { inv.host with output }⟩
    | .error _ => ⟨successStatus, inv.host⟩
  | some (.command command) =>
    match inv.settings with
    | .error e => fail inv.host (inv.programName ++ ": " ++ e.message)
    | .ok (config, filter) =>
      let world := World.new inv.host inv.identity (some ⟨filter, inv.time⟩)
      match (execute command config inv.programName).run world with
      | (.ok status, world) => ⟨status, world.host⟩
      | (.error _, world) => ⟨abortStatus, world.host⟩

end Invocation

end ScopedResources
