/-
  Paths, as byte strings.

  Two paths are the same when they have the same components: repeated and
  trailing slashes do not count, nor does a `.` other than at the very start
  of a relative path.

  * `Path.components` splits a path, `Path.same` compares two.
  * `Path.fileName?` is the last component, if it is a name.
  * `Path.display` shows a path as text.
-/
import ScopedResources.Text.Utf8

namespace ScopedResources.Path

/-- One component of a path. -/
inductive Component where
  /-- The root directory, where an absolute path starts. -/
  | root
  /-- The `.` that a relative path may start with. -/
  | here
  /-- The parent directory, `..`. -/
  | up
  /-- An entry of a directory. -/
  | name (bytes : Bytes)
  deriving DecidableEq, Repr

/-- The octet of `/`. -/
def slash : UInt8 := 0x2F

/-- The octet of `.`. -/
def dot : UInt8 := 0x2E

/-- The parts of a path between slashes, in order, empty ones included. -/
def split : Bytes → List Bytes
  | [] => [[]]
  | b :: rest =>
    if b = slash then [] :: split rest
    else
      match split rest with
      | [] => [[b]]
      | part :: parts => (b :: part) :: parts

/-- The component that a part stands for, if any. -/
def component? (part : Bytes) : Option Component :=
  if part = [] ∨ part = [dot] then none
  else if part = [dot, dot] then some .up
  else some (.name part)

/-- What a path starts with: the root, a leading `.`, or nothing of the kind. -/
def leading (path : Bytes) : List Component :=
  match split path with
  | [] :: _ :: _ => [.root]
  | part :: _ => if part = [dot] then [.here] else []
  | [] => []

def components (path : Bytes) : List Component :=
  leading path ++ (split path).filterMap component?

def same (path other : Bytes) : Bool :=
  components path == components other

/-- The last component of a path, if it is a name. -/
def fileName? (path : Bytes) : Option Bytes :=
  match (components path).getLast? with
  | some (.name bytes) => some bytes
  | _ => none

/-- A path as text; ill-formed parts are replaced. -/
def display (path : Bytes) : String :=
  Utf8.lossy path

def ofText (text : String) : Bytes :=
  Utf8.encode text

end ScopedResources.Path
