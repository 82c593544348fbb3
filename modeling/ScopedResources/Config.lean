/-
  The configuration of a process.

  * `Config.default` is what holds when nothing is set.
  * `Config.same` compares two configurations; lock paths are the same when
    they have the same components.
-/
import ScopedResources.Path

namespace ScopedResources

/-- Where a configuration came from. -/
inductive ConfigSource where
  /-- Nothing was set. -/
  | default
  /-- These variables were set, their names joined by commas. -/
  | environment (names : String)
  deriving DecidableEq, Repr

/-- The configuration of a process. -/
structure Config where
  /-- Which log events are written. -/
  logFilter : String
  /-- The file that serializes debug lines between processes. -/
  debugLockPath : Bytes
  /-- Whether a write that nobody reads is reported as an error of the write. -/
  ignoreSigpipe : Bool
  /-- Where the configuration came from. -/
  source : ConfigSource
  deriving DecidableEq, Repr

namespace Config

def logVariable : String := "UNWOUND_LOG"

def debugLockVariable : String := "UNWOUND_DEBUG_LOCK"

/-- The variable that says whether broken pipes are reported as errors. -/
def ignoreSigpipeVariable : String := "UNWOUND_IGNORE_SIGPIPE"

/-- The configuration when nothing is set. -/
def default : Config where
  logFilter := "warn"
  debugLockPath := Path.ofText "/tmp/unwound.lock"
  ignoreSigpipe := true
  source := .default

def same (config other : Config) : Bool :=
  config.logFilter == other.logFilter &&
    Path.same config.debugLockPath other.debugLockPath &&
    config.ignoreSigpipe == other.ignoreSigpipe &&
    config.source == other.source

def isDefault (config : Config) : Bool :=
  config.same default

end Config

end ScopedResources
