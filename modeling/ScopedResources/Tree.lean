/-
  The ownership tree: scopes and the cleanup records in them.

  Scopes and records are nodes of one store.  A scope knows its parent and its
  children, the newest first; a record knows the scope that owns it and, once
  it is committed, what it releases.  One scope is current: new scopes and new
  records become its children.  The top scope is permanent, so there is always
  a current scope.

  * `Tree.push` begins a scope, `Tree.pop` leaves one without releasing
    anything.
  * `Tree.reserve` adds a record, `Tree.commit` attaches its release.
  * What a teardown does is in `ScopedResources.Tree.Teardown`.
-/
import ScopedResources.Slots

namespace ScopedResources

/-- A node of the tree; `ρ` is what records release. -/
inductive Node (ρ : Type) where
  /-- A scope: its parent, and its children with the newest first. -/
  | scope (parent : Option Index) (children : List Index)
  /-- A cleanup record: the scope that owns it, and its release once committed. -/
  | record (owner : Index) (release : Option ρ)
  deriving Repr

/-- An ownership tree. -/
structure Tree (ρ : Type) where
  nodes : Slots (Node ρ)
  /-- The scope that is never removed. -/
  top : Index
  /-- The scope that new nodes become children of. -/
  current : Index
  deriving Repr

namespace Tree

variable {ρ : Type}

/-- A tree with the top scope only. -/
def new (arena : UInt32) : Tree ρ :=
  let top : Index := ⟨arena, 0, 0⟩
  ⟨⟨arena, #[.occupied (.scope none []) 0], none, 1⟩, top, top⟩

/-! ## Looking up -/

/-- The parent and the children of a scope, if it is alive. -/
def scope? (t : Tree ρ) (i : Index) : Option (Option Index × List Index) :=
  match t.nodes.get? i with
  | some (.scope parent children) => some (parent, children)
  | _ => none

/-- The owner and the release of a record, if it is alive. -/
def record? (t : Tree ρ) (i : Index) : Option (Index × Option ρ) :=
  match t.nodes.get? i with
  | some (.record owner release) => some (owner, release)
  | _ => none

/-- Whether an index names a scope that is alive. -/
def isScope (t : Tree ρ) (i : Index) : Bool :=
  (t.scope? i).isSome

/-- The parent of a scope, if it is alive and has one. -/
def parent? (t : Tree ρ) (i : Index) : Option Index :=
  (t.scope? i).bind (·.1)

/-- The children of a scope, the newest first, if it is alive. -/
def children? (t : Tree ρ) (i : Index) : Option (List Index) :=
  (t.scope? i).map (·.2)

/-- The number of nodes, the top scope included. -/
def size (t : Tree ρ) : Nat :=
  t.nodes.size

def live (t : Tree ρ) : Nat :=
  t.size - 1

/-- Whether `ancestor` is met on the way up from a node; the first argument
    bounds how far the way is followed. -/
def isWithinBounded (t : Tree ρ) (ancestor : Index) : Nat → Index → Bool
  | 0, node => node == ancestor
  | bound + 1, node =>
    if node = ancestor then true
    else
      match t.parent? node with
      | some parent => t.isWithinBounded ancestor bound parent
      | none => false

/-- Whether a scope is `ancestor` or lies below it. -/
def isWithin (t : Tree ρ) (ancestor node : Index) : Bool :=
  t.isWithinBounded ancestor t.size node

/-! ## Growing -/

/-- Adds a node as the newest child of the current scope; when there is no room,
    nothing happens. -/
def addChild (t : Tree ρ) (node : Node ρ) : Option Index × Tree ρ :=
  match t with
  | ⟨nodes, top, current⟩ =>
    match nodes.insert node with
    | (some i, nodes) =>
      match nodes.get? current with
      | some (.scope parent children) =>
        (some i, ⟨nodes.set current (.scope parent (i :: children)), top, current⟩)
      | _ => (some i, ⟨nodes, top, current⟩)
    | (none, nodes) => (none, ⟨nodes, top, current⟩)

/-- Begins a scope under the current one and makes it current; when there is no
    room, nothing happens. -/
def push (t : Tree ρ) : Option Index × Tree ρ :=
  match t.addChild (.scope (some t.current) []) with
  | (some i, t) => (some i, { t with current := i })
  | (none, t) => (none, t)

/-- Makes the parent of the current scope current, if there is one. -/
def pop (t : Tree ρ) : Tree ρ :=
  match t.parent? t.current with
  | some parent => { t with current := parent }
  | none => t

/-- Makes a scope current; one that is gone is replaced by the top scope. -/
def enter (t : Tree ρ) (i : Index) : Tree ρ :=
  { t with current := if t.isScope i then i else t.top }

/-- Adds a record without a release to the current scope; when there is no
    room, nothing happens. -/
def reserve (t : Tree ρ) : Option Index × Tree ρ :=
  t.addChild (.record t.current none)

/-! ## Records -/

/-- Attaches a release to a record and says whether the record was alive; if it
    is gone, nothing happens. -/
def commit (t : Tree ρ) (i : Index) (release : ρ) : Bool × Tree ρ :=
  match t.nodes.get? i with
  | some (.record owner _) =>
    (true, { t with nodes := t.nodes.set i (.record owner (some release)) })
  | _ => (false, t)

/-- Whether an index names a record that is alive and not committed. -/
def isReserved (t : Tree ρ) (i : Index) : Bool :=
  match t.record? i with
  | some (_, none) => true
  | _ => false

/-- The scope that owns a record, if the record is alive. -/
def owner? (t : Tree ρ) (i : Index) : Option Index :=
  (t.record? i).map (·.1)

/-- The release of a record that is alive and committed. -/
def release? (t : Tree ρ) (i : Index) : Option ρ :=
  (t.record? i).bind (·.2)

/-- Whether some record that is alive has a release that satisfies a condition. -/
def anyRelease (t : Tree ρ) (p : ρ → Bool) : Bool :=
  t.nodes.any fun
    | .record _ release => release.any p
    | .scope _ _ => false

end Tree

end ScopedResources
