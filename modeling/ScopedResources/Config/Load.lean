/-
  Loading the configuration from variables.

  The variables are asked in a fixed order, the log filter first, then the
  path of the debug lock, then the flag; the first value that cannot be used
  ends the loading, and later variables are not asked.

  * `Config.load` gives the configuration or the error, with the names asked.
-/
import ScopedResources.Config
import ScopedResources.SetupError
import ScopedResources.Text.Blank
import ScopedResources.Text.Lowercase

namespace ScopedResources.Config

/-- A lookup of variables: the value of a name, if it is set. -/
abbrev Lookup := String → Option String

/-- Loading: it may end with an error, and keeps the names it has asked, in order. -/
abbrev Loading := ExceptT SetupError (StateM (List String))

def ask (lookup : Lookup) (name : String) : Loading (Option String) := do
  modify (· ++ [name])
  return lookup name

def readFilter (value : String) : Except SetupError String :=
  if Text.isBlank value then
    .error (.invalidValue logVariable value "filter must not be empty")
  else .ok value

def readLockPath (value : String) : Except SetupError Bytes :=
  if value.isEmpty then
    .error (.invalidValue debugLockVariable value "lock path must not be empty")
  else .ok (Path.ofText value)

/-- The flag that a word stands for, in any mix of cases. -/
def readFlag (name value : String) : Except SetupError Bool :=
  let word := Text.lowercase value
  if word ∈ ["1", "true", "yes", "on"] then .ok true
  else if word ∈ ["0", "false", "no", "off"] then .ok false
  else .error (.invalidValue name value "expected a boolean")

/-- A setting, and the name of its variable if that was set. -/
def setting (lookup : Lookup) (name : String) (byDefault : α)
    (read : String → Except SetupError α) : Loading (α × List String) := do
  match ← ask lookup name with
  | none => return (byDefault, [])
  | some value => return (← read value, [name])

/-- Where a configuration came from, by the names that were set. -/
def sourceOf : List String → ConfigSource
  | [] => .default
  | names => .environment (",".intercalate names)

def loading (lookup : Lookup) : Loading Config := do
  let (logFilter, s₁) ← setting lookup logVariable default.logFilter readFilter
  let (debugLockPath, s₂) ← setting lookup debugLockVariable default.debugLockPath readLockPath
  let (ignoreSigpipe, s₃) ←
    setting lookup ignoreSigpipeVariable default.ignoreSigpipe (readFlag ignoreSigpipeVariable)
  return { logFilter, debugLockPath, ignoreSigpipe, source := sourceOf (s₁ ++ s₂ ++ s₃) }

/-- The configuration by a lookup, or the first error, with the names that were
    asked, in order. -/
def load (lookup : Lookup) : Except SetupError Config × List String :=
  (loading lookup).run []

end ScopedResources.Config
