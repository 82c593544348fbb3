/-
  Files and directories, and the walk from a path to one of them.

  Every file, directory, device and terminal has a number.  A directory knows its parent and the
  names in it.  A path is walked name by name from the root or from the
  working directory; each name before the last must lead to a directory.

  * `Files.find` follows a path to the end.
  * `Files.locate` stops before the last name, for operations that may create
    it.
  * `Files.addFile`, `Files.addDirectory` and `Files.addDevice` build a tree,
    with the directories on the way; `Files.standard` is what is there anyway.
-/
import ScopedResources.Path
import ScopedResources.OsError
import ScopedResources.Host.Access
import ScopedResources.Host.Device
import ScopedResources.Host.Terminal

namespace ScopedResources

/-- The number of a file or directory. -/
abbrev FileId := Nat

/-- A file, a directory, a device, or a terminal. -/
inductive FileNode where
  /-- A file: its permission bits and what it holds. -/
  | file (mode : Nat) (content : Bytes)
  /-- A directory: its parent, and its names. -/
  | directory (parent : FileId) (entries : List (Bytes × FileId))
  | device (d : Device)
  | terminal (t : Terminal)
  deriving DecidableEq, Repr

/-- Whether a file may be read; all that are no files may. -/
def FileNode.isReadable : FileNode → Bool
  | file mode _ => ScopedResources.isReadable mode
  | directory _ _ | device _ | terminal _ => true

/-- All files and directories; number `0` is the root directory. -/
structure Files where
  nodes : Array FileNode
  /-- The directory that relative paths start from. -/
  working : FileId
  deriving Repr

namespace Files

/-- The longest name. -/
def nameLimit : Nat := 255

/-- The length that a path has to stay below. -/
def pathLimit : Nat := 4096

/-- A root directory without anything in it, which is the working directory too. -/
def empty : Files :=
  ⟨#[.directory 0 []], 0⟩

def node? (fs : Files) (id : FileId) : Option FileNode :=
  fs.nodes[id]?

def isDirectory (fs : Files) (id : FileId) : Bool :=
  match fs.node? id with
  | some (.directory _ _) => true
  | _ => false

/-- How many terminals there are. -/
def terminals (fs : Files) : Nat :=
  fs.nodes.countP fun
    | .terminal _ => true
    | _ => false

/-! ## Walking a path -/

/-- What one name leads to, from a directory. -/
def step (fs : Files) (directory : FileId) (name : Bytes) : Except Errno FileId :=
  match fs.node? directory with
  | some (.directory parent entries) =>
    if name = [Path.dot] then .ok directory
    else if name = [Path.dot, Path.dot] then .ok parent
    else if nameLimit < name.length then .error Errno.nameTooLong
    else
      match entries.lookup name with
      | some id => .ok id
      | none => .error Errno.noEntry
  | _ => .error Errno.notDirectory

/-- What names lead to, one after the other. -/
def walk (fs : Files) : FileId → List Bytes → Except Errno FileId
  | id, [] => .ok id
  | id, name :: names => do
    let next ← fs.step id name
    fs.walk next names

def names (path : Bytes) : List Bytes :=
  (Path.split path).filter (· ≠ [])

/-- Where a path starts. -/
def origin (fs : Files) (path : Bytes) : FileId :=
  if path.head? = some Path.slash then 0 else fs.working

def checkPath (path : Bytes) : Except Errno Unit :=
  if path = [] then .error Errno.noEntry
  else if pathLimit ≤ path.length then .error Errno.nameTooLong
  else .ok ()

/-- Where a path leads: to a name in a directory, or past all names. -/
inductive Place where
  /-- The directory before the last name, and that name. -/
  | entry (directory : FileId) (name : Bytes)
  /-- A directory that has no name in the path: the root, `.` or `..`. -/
  | bare (directory : FileId)
  deriving DecidableEq, Repr

/-- Walks a path up to its last name. -/
def locate (fs : Files) (path : Bytes) : Except Errno Place :=
  let names := names path
  match names.getLast? with
  | none => .ok (.bare (fs.origin path))
  | some name => do
    let directory ← fs.walk (fs.origin path) names.dropLast
    if !fs.isDirectory directory then throw Errno.notDirectory
    if name = [Path.dot] ∨ name = [Path.dot, Path.dot] then
      return .bare (← fs.step directory name)
    return .entry directory name

def find (fs : Files) (path : Bytes) : Except Errno FileId := do
  checkPath path
  match ← fs.locate path with
  | .bare id => return id
  | .entry directory name =>
    let id ← fs.step directory name
    if path.getLast? = some Path.slash && !fs.isDirectory id then throw Errno.notDirectory
    return id

/-! ## Building a tree -/

def add (fs : Files) (directory : FileId) (name : Bytes) (node : FileNode) : FileId × Files :=
  let id := fs.nodes.size
  let nodes := fs.nodes.modify directory fun
    | .directory parent entries => .directory parent ((name, id) :: entries)
    | other => other
  (id, { fs with nodes := nodes.push node })

/-- The directory that names lead to; directories that are missing are added. -/
def ensure (fs : Files) : FileId → List Bytes → FileId × Files
  | id, [] => (id, fs)
  | id, name :: names =>
    match fs.step id name with
    | .ok next => fs.ensure next names
    | .error _ =>
      let (next, fs) := fs.add id name (.directory id [])
      fs.ensure next names

/-- Adds a directory, with those on the way to it. -/
def addDirectory (fs : Files) (path : Bytes) : Files :=
  (fs.ensure (fs.origin path) (names path)).2

/-- Adds a node at a path, with the directories on the way to it. -/
def addAt (fs : Files) (path : Bytes) (node : FileNode) : Files :=
  let names := names path
  match names.getLast? with
  | some name =>
    let (directory, fs) := fs.ensure (fs.origin path) names.dropLast
    (fs.add directory name node).2
  | none => fs

/-- Adds a file, with the directories on the way to it. -/
def addFile (fs : Files) (path : Bytes) (mode : Nat) (content : Bytes) : Files :=
  fs.addAt path (.file mode content)

def deviceDirectory : Bytes := Path.ofText "/dev/"

def addDevice (fs : Files) (d : Device) : Files :=
  fs.addAt (deviceDirectory ++ Path.ofText d.name) (.device d)

/-- Makes a directory the working directory; it is added if it is missing. -/
def workIn (fs : Files) (path : Bytes) : Files :=
  let (id, fs) := fs.ensure (fs.origin path) (names path)
  { fs with working := id }

/-- What is there anyway: all devices, and a directory for files that do not
    last. -/
def standard : Files :=
  Device.all.foldl addDevice (empty.addDirectory (Path.ofText "/tmp"))

end Files

end ScopedResources
