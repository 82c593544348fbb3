/-
  The configuration as JSON.

  * `Config.toJson?` writes a configuration; a lock path without a text has no
    JSON, and `Config.render` reports that.
  * `Config.ofJson?` reads one: an object with the four members in any order
    and others besides, or an array of the four.  A member given twice is
    refused.
  * `Config.parse?` reads one from text.
-/
import ScopedResources.Config
import ScopedResources.SetupError

namespace ScopedResources.Config

/-! ## Writing -/

def sourceToJson : ConfigSource → Json
  | .default => .text "Default"
  | .environment names => .record [("EnvironmentVariable", .text names)]

/-- A configuration as JSON, if its lock path is a text. -/
def toJson? (config : Config) : Option Json := do
  let path ← Utf8.decode? config.debugLockPath
  return .record [
    ("log_filter", .text config.logFilter),
    ("debug_lock_path", .text path),
    ("ignore_sigpipe", .bool config.ignoreSigpipe),
    ("source", sourceToJson config.source)]

/-- The JSON text of a configuration, over several lines. -/
def render (config : Config) : Except SetupError String :=
  match config.toJson? with
  | some json => .ok json.pretty
  | none =>
    .error ((SetupError.json "path contains invalid UTF-8 characters").within
      "rendering configuration")

/-! ## Reading -/

def textOf? : Json → Option String
  | .string content => content
  | _ => none

def flagOf? : Json → Option Bool
  | .bool value => some value
  | _ => none

/-- The source that a value stands for: a word, or an object with one member. -/
def sourceOf? : Json → Option ConfigSource
  | .string (some "Default") => some .default
  | .object [(some "Default", .null)] => some .default
  | .object [(some "EnvironmentVariable", .string (some names))] => some (.environment names)
  | _ => none

/-- The value of the only member with a key. -/
def only? (members : List (Option String × Json)) (key : String) : Option Json :=
  match members.filter (·.1 == some key) with
  | [(_, value)] => some value
  | _ => none

def ofSettings? (filter path flag source : Json) : Option Config := do
  let logFilter ← textOf? filter
  let path ← textOf? path
  let ignoreSigpipe ← flagOf? flag
  let source ← sourceOf? source
  return { logFilter, debugLockPath := Path.ofText path, ignoreSigpipe, source }

def ofJson? : Json → Option Config
  | .array [filter, path, flag, source] => ofSettings? filter path flag source
  | .object members => do
    guard (members.all (·.1.isSome))
    ofSettings? (← only? members "log_filter") (← only? members "debug_lock_path")
      (← only? members "ignore_sigpipe") (← only? members "source")
  | _ => none

def parse? (text : String) : Option Config :=
  match Json.read text with
  | .ok json => ofJson? json
  | .error _ => none

end ScopedResources.Config
