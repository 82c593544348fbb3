/-
  Teardown of a scope.

  A teardown takes the newest child first and goes down into a scope before it
  goes on with that scope's older neighbours, so releases come in the reverse
  of the order in which their records were reserved, at every depth.  The walk
  keeps no stack: from a scope without children it climbs by the scope's
  parent.

  * `Tree.destroy` removes a scope and all below it and says what has to be
    released, in order.
  * The top scope loses what is below it and stays.
  * If the current scope was removed, the parent of the destroyed scope is
    current afterwards.

  Releasing has no access to the tree, so it makes no difference that a
  teardown first collects the releases and that they are run afterwards.
-/
import ScopedResources.Tree

namespace ScopedResources

/-- A release that is due, with the record that it was attached to. -/
structure Due (ρ : Type) where
  record : Index
  release : ρ
  deriving Repr, DecidableEq

namespace Tree

variable {ρ : Type}

/-- What a teardown did. -/
structure Teardown (ρ : Type) where
  /-- What has to be released, in order. -/
  due : List (Due ρ)
  /-- How many nodes are gone. -/
  removed : Nat
  deriving Repr, DecidableEq

/-- What is due once a record is gone. -/
def dueWith (record : Index) (release : Option ρ) (due : List (Due ρ)) : List (Due ρ) :=
  match release with
  | some release => ⟨record, release⟩ :: due
  | none => due

/-- The walk of a teardown of `root`, at a scope: the store that is left and
    what is due, the last one first.  The first argument bounds the steps. -/
def walk (top root : Index) :
    Nat → Index → Slots (Node ρ) → List (Due ρ) → Slots (Node ρ) × List (Due ρ)
  | 0, _, nodes, due => (nodes, due)
  | bound + 1, node, nodes, due =>
    match nodes.get? node with
    | some (.scope parent (child :: children)) =>
      let nodes := nodes.set node (.scope parent children)
      match nodes.get? child with
      | some (.scope _ _) => walk top root bound child nodes due
      | some (.record _ release) =>
        walk top root bound node (nodes.remove child) (dueWith child release due)
      | none => walk top root bound node nodes due
    | some (.scope parent []) =>
      if node = root then (if root = top then nodes else nodes.remove root, due)
      else
        match parent with
        | some parent => walk top root bound parent (nodes.remove node) due
        | none => (nodes.remove node, due)
    | _ => (nodes, due)

def detach (nodes : Slots (Node ρ)) (parent : Option Index) (i : Index) : Slots (Node ρ) :=
  match parent with
  | some p =>
    match nodes.get? p with
    | some (.scope grandparent children) => nodes.set p (.scope grandparent (children.erase i))
    | _ => nodes
  | none => nodes

/-- Removes a scope and all below it; when it is no scope that is alive, nothing
    happens.  Every step of the walk takes an entry off some list of children or
    removes a node, so twice the number of nodes bounds its steps. -/
def destroy (t : Tree ρ) (i : Index) : Option (Teardown ρ) × Tree ρ :=
  match t.scope? i with
  | some (parent, _) =>
    let current := if t.isWithin i t.current then parent.getD t.top else t.current
    let before := t.size
    match t with
    | ⟨nodes, top, _⟩ =>
      let (nodes, due) := walk top i (2 * before + 1) i (detach nodes parent i) []
      (some ⟨due.reverse, before - nodes.size⟩, ⟨nodes, top, current⟩)
  | none => (none, t)

end Tree

end ScopedResources
