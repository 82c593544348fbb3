/-
  Renaming the identities in a context.

  An index carries the identity of its store.  Stores compare identities, but do nothing
  else with them, so another choice of identities makes no difference.  It makes none
  either which number a release has for its descriptor, its debug lock or its context:
  a tree keeps releases until they are due, and reads only payloads and names.

  * `Renaming` replaces identities and such numbers, and the `rename` functions apply it.
  * `Tree.destroy_rename` and the lemmas before it: whatever is done to a renamed tree
    is what was done to the tree, renamed.
  * `Change.apply_rename`, `Change.due_rename`: so does every change.
-/
import ScopedResources.Proofs.Undoing

namespace ScopedResources

/-- Other identities for stores, and other numbers for what releases are about. -/
structure Renaming where
  arena : UInt32 → UInt32
  /-- Stores that were different stay so. -/
  injective : Function.Injective arena
  descriptor : Int → Int
  lock : LockId → LockId
  context : ContextId → ContextId

variable {α β : Type} (θ : Renaming)

/-! ## What is renamed -/

def Index.rename (i : Index) : Index :=
  { i with arena := θ.arena i.arena }

def Release.rename : Release → Release
  | .note label panics => .note label panics
  | .dropContext label victim => .dropContext label (θ.context victim)
  | .close fd => .close (θ.descriptor fd)
  | .forget payload => .forget payload
  | .restoreName previous => .restoreName previous
  | .leaveLock lock => .leaveLock (θ.lock lock)

def Due.rename (d : Due Release) : Due Release :=
  ⟨d.record.rename θ, d.release.rename θ⟩

def Node.rename : Node Release → Node Release
  | .scope parent children => .scope (parent.map (·.rename θ)) (children.map (·.rename θ))
  | .record owner release => .record (owner.rename θ) (release.map (·.rename θ))

def Slot.map (f : α → β) : Slot α → Slot β
  | .occupied value generation => .occupied (f value) generation
  | .vacant next generation => .vacant next generation

/-- A store with another identity, and with other values. -/
def Slots.rename (f : α → β) (s : Slots α) : Slots β :=
  ⟨θ.arena s.arena, s.slots.map (Slot.map f), s.free, s.size⟩

def Tree.rename (t : Tree Release) : Tree Release :=
  ⟨t.nodes.rename θ (Node.rename θ), t.top.rename θ, t.current.rename θ⟩

def Frame.rename (f : Frame) : Frame :=
  { f with boundary := f.boundary.rename θ }

def ProtectedCall.rename (c : ProtectedCall) : ProtectedCall :=
  ⟨c.resume.rename θ, c.boundary.rename θ, c.depth, c.outer.map (·.rename θ)⟩

def Hold.rename (h : Hold) : Hold :=
  ⟨h.tree.rename θ, h.frame.map (·.rename θ)⟩

def Context.rename (c : Context) : Context :=
  ⟨c.tree.rename θ, c.frame.map (·.rename θ), c.program⟩

def Change.rename : Change → Change
  | .push => .push
  | .pop => .pop
  | .destroy scope => .destroy (scope.rename θ)
  | .leave scope => .leave (scope.rename θ)
  | .reserve => .reserve
  | .commit record release => .commit (record.rename θ) (release.rename θ)
  | .write record position byte => .write (record.rename θ) position byte
  | .enter detail => .enter detail
  | .exit call how => .exit (call.rename θ) how

variable {θ} {i j : Index} {t : Tree Release}

theorem Index.rename_injective : Function.Injective (Index.rename θ) := by
  rintro ⟨a, s, g⟩ ⟨a', s', g'⟩ h
  obtain ⟨ha, rfl, rfl⟩ := Index.mk.inj h
  exact congrArg (Index.mk · _ _) (θ.injective ha)

@[simp] theorem Index.rename_eq_iff : i.rename θ = j.rename θ ↔ i = j :=
  rename_injective.eq_iff

/-! ## Stores -/

namespace Slots

variable {s : Slots α} {v : α} {f : α → β}

theorem valueAt?_map (slot : Slot α) (generation : UInt32) :
    (slot.map f).valueAt? generation = (slot.valueAt? generation).map f := by
  cases slot with
  | occupied value g =>
    rw [Slot.map, Slot.valueAt?, Slot.valueAt?]
    split <;> rfl
  | vacant next g => rfl

@[simp] theorem get?_rename : (s.rename θ f).get? (i.rename θ) = (s.get? i).map f := by
  rw [get?, get?]
  show (if θ.arena i.arena = θ.arena s.arena then
    (s.slots.map (Slot.map f))[i.slot.toNat]?.bind (·.valueAt? i.generation) else none) = _
  simp only [θ.injective.eq_iff]
  split
  · rw [Array.getElem?_map]
    rcases s.slots[i.slot.toNat]? with _ | slot
    · rfl
    · exact valueAt?_map slot i.generation
  · rfl

@[simp] theorem size_rename : (s.rename θ f).size = s.size := rfl

theorem set_rename (s : Slots α) (i : Index) (v : α) :
    (s.rename θ f).set (i.rename θ) (f v) = (s.set i v).rename θ f := by
  rw [set, set, get?_rename]
  rcases s.get? i with _ | old
  · rfl
  · dsimp only [Option.map_some]
    rw [rename, rename, Array.map_setIfInBounds]
    rfl

theorem remove_rename (s : Slots α) (i : Index) :
    (s.rename θ f).remove (i.rename θ) = (s.remove i).rename θ f := by
  rw [remove, remove, get?_rename]
  rcases s.get? i with _ | old
  · rfl
  · dsimp only [Option.map_some]
    rw [rename, rename, Array.map_setIfInBounds]
    rfl

theorem insert_rename (s : Slots α) (v : α) :
    (s.rename θ f).insert (f v) = ((s.insert v).1.map (·.rename θ), (s.insert v).2.rename θ f) := by
  obtain ⟨arena, slots, free, size⟩ := s
  cases free with
  | none =>
    simp only [insert, rename, Array.size_map]
    split
    · simp [Index.rename, Slot.map]
    · rfl
  | some slot =>
    simp only [insert, rename, Array.getElem?_map]
    rcases slots[slot.toNat]? with _ | ⟨value, g⟩ | ⟨next, g⟩
    · rfl
    · rfl
    · simp [Index.rename, Slot.map, Array.map_setIfInBounds]

end Slots

/-! ## Trees -/

namespace Tree

variable {nodes : Slots (Node Release)} {due : List (Due Release)}

@[simp] theorem current_rename : (t.rename θ).current = t.current.rename θ := rfl

@[simp] theorem top_rename : (t.rename θ).top = t.top.rename θ := rfl

@[simp] theorem size_rename : (t.rename θ).size = t.size := rfl

@[simp] theorem scope?_rename : (t.rename θ).scope? (i.rename θ) =
    (t.scope? i).map fun s => (s.1.map (·.rename θ), s.2.map (·.rename θ)) := by
  rw [scope?, scope?, rename, Slots.get?_rename]
  rcases t.nodes.get? i with _ | ⟨_, _⟩ | ⟨_, _⟩ <;> rfl

@[simp] theorem record?_rename : (t.rename θ).record? (i.rename θ) =
    (t.record? i).map fun r => (r.1.rename θ, r.2.map (·.rename θ)) := by
  rw [record?, record?, rename, Slots.get?_rename]
  rcases t.nodes.get? i with _ | ⟨_, _⟩ | ⟨_, _⟩ <;> rfl

@[simp] theorem isScope_rename : (t.rename θ).isScope (i.rename θ) = t.isScope i := by
  rw [isScope, isScope, scope?_rename, Option.isSome_map]

@[simp] theorem parent?_rename :
    (t.rename θ).parent? (i.rename θ) = (t.parent? i).map (·.rename θ) := by
  rw [parent?, parent?, scope?_rename]
  rcases t.scope? i with _ | s <;> rfl

@[simp] theorem release?_rename :
    (t.rename θ).release? (i.rename θ) = (t.release? i).map (·.rename θ) := by
  rw [release?, release?, record?_rename]
  rcases t.record? i with _ | r <;> rfl

theorem isWithinBounded_rename (ancestor : Index) : ∀ (bound : Nat) (node : Index),
    (t.rename θ).isWithinBounded (ancestor.rename θ) bound (node.rename θ) =
      t.isWithinBounded ancestor bound node
  | 0, node => by
    rw [isWithinBounded, isWithinBounded, Bool.eq_iff_iff, beq_iff_eq, beq_iff_eq,
      Index.rename_eq_iff]
  | bound + 1, node => by
    rw [isWithinBounded, isWithinBounded, parent?_rename]
    simp only [Index.rename_eq_iff]
    split
    · rfl
    · rcases t.parent? node with _ | parent
      · rfl
      · exact isWithinBounded_rename ancestor bound parent

theorem isWithin_rename (ancestor node : Index) :
    (t.rename θ).isWithin (ancestor.rename θ) (node.rename θ) = t.isWithin ancestor node :=
  isWithinBounded_rename ancestor t.size node

theorem addChild_rename (t : Tree Release) (node : Node Release) :
    (t.rename θ).addChild (node.rename θ) =
      ((t.addChild node).1.map (·.rename θ), (t.addChild node).2.rename θ) := by
  obtain ⟨nodes, top, current⟩ := t
  rw [addChild, rename, addChild]
  dsimp only
  rw [Slots.insert_rename]
  rcases nodes.insert node with ⟨_ | i, nodes'⟩
  · rfl
  · dsimp only [Option.map_some]
    rw [Slots.get?_rename]
    rcases nodes'.get? current with _ | ⟨parent, children⟩ | _
    · rfl
    · dsimp only [Option.map_some, Node.rename]
      rw [rename, ← Slots.set_rename]
      rfl
    · rfl

theorem push_rename (t : Tree Release) :
    (t.rename θ).push = (t.push.1.map (·.rename θ), t.push.2.rename θ) := by
  have h := addChild_rename (θ := θ) t (.scope (some t.current) [])
  rw [push, push]
  rw [show (Node.scope (some (t.rename θ).current) [] : Node Release) =
    (Node.scope (some t.current) []).rename θ from rfl, h]
  rcases t.addChild (.scope (some t.current) []) with ⟨_ | i, t'⟩ <;> rfl

theorem reserve_rename (t : Tree Release) :
    (t.rename θ).reserve = (t.reserve.1.map (·.rename θ), t.reserve.2.rename θ) :=
  addChild_rename t (.record t.current none)

theorem pop_rename (t : Tree Release) : (t.rename θ).pop = t.pop.rename θ := by
  rw [pop, pop, current_rename, parent?_rename]
  rcases t.parent? t.current with _ | parent <;> rfl

theorem enter_rename (t : Tree Release) (i : Index) :
    (t.rename θ).enter (i.rename θ) = (t.enter i).rename θ := by
  rw [enter, enter, isScope_rename]
  split <;> rfl

theorem commit_rename (t : Tree Release) (i : Index) (r : Release) :
    (t.rename θ).commit (i.rename θ) (r.rename θ) = ((t.commit i r).1, (t.commit i r).2.rename θ) := by
  rw [commit, commit, rename, Slots.get?_rename]
  rcases t.nodes.get? i with _ | _ | ⟨owner, release⟩
  · rfl
  · rfl
  · dsimp only [Option.map_some, Node.rename]
    rw [rename, ← Slots.set_rename]
    rfl

theorem write_rename (t : Tree Release) (record : Index) (position : Nat) (byte : UInt8) :
    (t.rename θ).write (record.rename θ) position byte = (t.write record position byte).rename θ := by
  rw [write, write, release?_rename]
  rcases t.release? record with _ | ⟨⟩ | ⟨⟩ | ⟨⟩ | ⟨b | _⟩ | ⟨⟩ | ⟨⟩
  case some.forget.block =>
    exact congrArg Prod.snd (commit_rename t record (.forget (.block (b.set position byte))))
  all_goals rfl

theorem leaving_rename (t : Tree Release) (s : Index) :
    (t.rename θ).leaving (s.rename θ) = (t.leaving s).rename θ := by
  rw [leaving, leaving, parent?_rename]
  rcases t.parent? s with _ | parent
  · rfl
  · exact enter_rename t parent

/-! ### Teardowns -/

theorem dueWith_rename (record : Index) (release : Option Release) (due : List (Due Release)) :
    dueWith (record.rename θ) (release.map (·.rename θ)) (due.map (·.rename θ)) =
      (dueWith record release due).map (·.rename θ) := by
  cases release <;> rfl

theorem walk_rename (top root : Index) :
    ∀ (bound : Nat) (node : Index) (nodes : Slots (Node Release)) (due : List (Due Release)),
      walk (top.rename θ) (root.rename θ) bound (node.rename θ) (nodes.rename θ (Node.rename θ))
        (due.map (·.rename θ)) =
      ((walk top root bound node nodes due).1.rename θ (Node.rename θ),
        (walk top root bound node nodes due).2.map (·.rename θ))
  | 0, _, _, _ => rfl
  | bound + 1, node, nodes, due => by
    rw [walk, walk, Slots.get?_rename]
    rcases nodes.get? node with _ | ⟨parent, _ | ⟨child, children⟩⟩ | _
    · rfl
    · -- the scope is empty: the walk ends or climbs
      simp only [Option.map_some, Node.rename, List.map_nil, Index.rename_eq_iff]
      by_cases hroot : node = root
      · rw [if_pos hroot, if_pos hroot]
        split
        · rfl
        · rw [Slots.remove_rename]
      · rw [if_neg hroot, if_neg hroot, Slots.remove_rename]
        rcases parent with _ | parent
        · rfl
        · exact walk_rename top root bound parent _ due
    · -- the newest child is taken off
      have hset := Slots.set_rename (θ := θ) (f := Node.rename θ) nodes node (.scope parent children)
      simp only [Node.rename] at hset
      simp only [Option.map_some, Node.rename, List.map_cons]
      rw [hset, Slots.get?_rename]
      rcases (nodes.set node (.scope parent children)).get? child with _ | _ | ⟨_, release⟩
      · exact walk_rename top root bound node _ due
      · exact walk_rename top root bound child _ due
      · dsimp only [Option.map_some, Node.rename]
        rw [Slots.remove_rename, dueWith_rename]
        exact walk_rename top root bound node _ _
    · rfl

theorem detach_rename (nodes : Slots (Node Release)) (parent : Option Index) (i : Index) :
    detach (nodes.rename θ (Node.rename θ)) (parent.map (·.rename θ)) (i.rename θ) =
      (detach nodes parent i).rename θ (Node.rename θ) := by
  rcases parent with _ | p
  · rfl
  · rw [Option.map_some, detach, detach, Slots.get?_rename]
    rcases nodes.get? p with _ | ⟨grandparent, children⟩ | _
    · rfl
    · dsimp only [Option.map_some, Node.rename]
      rw [← Slots.set_rename, Node.rename, List.map_erase Index.rename_injective]
    · rfl

theorem destroy_rename (t : Tree Release) (i : Index) :
    (t.rename θ).destroy (i.rename θ) =
      ((t.destroy i).1.map fun d => ⟨d.due.map (·.rename θ), d.removed⟩,
        (t.destroy i).2.rename θ) := by
  rw [destroy, destroy, scope?_rename]
  rcases t.scope? i with _ | ⟨parent, children⟩
  · rfl
  · dsimp only [Option.map_some]
    rw [current_rename, top_rename, isWithin_rename, size_rename]
    obtain ⟨nodes, top, current⟩ := t
    dsimp only [rename]
    rw [detach_rename]
    have hwalk := walk_rename (θ := θ) top i (2 * Tree.size ⟨nodes, top, current⟩ + 1) i
      (detach nodes parent i) []
    rw [List.map_nil] at hwalk
    rw [hwalk]
    dsimp only
    rw [List.map_reverse, Slots.size_rename]
    split
    · rcases parent with _ | parent <;> rfl
    · rfl

end Tree

/-! ## Changes -/

@[simp] theorem Hold.tree_rename (h : Hold) : (h.rename θ).tree = h.tree.rename θ := rfl

@[simp] theorem Hold.depth_rename (h : Hold) : (h.rename θ).depth = h.depth := by
  obtain ⟨tree, _ | frame⟩ := h <;> rfl

theorem Ledger.dueOf_rename (t : Tree Release) (s : Index) :
    dueOf (t.rename θ) (s.rename θ) = (dueOf t s).map (·.rename θ) := by
  rw [dueOf, dueOf, Tree.destroy_rename]
  rcases (t.destroy s).1 with _ | teardown <;> rfl

/-- The names that are put back are the same. -/
theorem restored_rename (due : List (Due Release)) :
    restored (due.map (·.rename θ)) = restored due := by
  have hname : ∀ r : Release, (r.rename θ).name? = r.name? := fun r => by cases r <;> rfl
  rw [restored, restored, List.filterMap_map]
  exact List.filterMap_congr fun d _ => hname d.release

namespace Change

/-- What a change does to renamed nodes. -/
theorem apply_rename (c : Change) (h : Hold) :
    (c.rename θ).apply (h.rename θ) = (c.apply h).rename θ := by
  have hdestroy : ∀ (t : Tree Release) (s : Index),
      ((t.rename θ).destroy (s.rename θ)).2 = (t.destroy s).2.rename θ := fun t s => by
    rw [Tree.destroy_rename]
  cases c with
  | push => exact congrArg (Hold.mk · _) (congrArg Prod.snd (Tree.push_rename h.tree))
  | pop => exact congrArg (Hold.mk · _) (Tree.pop_rename h.tree)
  | destroy s => exact congrArg (Hold.mk · _) (hdestroy h.tree s)
  | leave s =>
    refine congrArg (Hold.mk · _) ?_
    rw [Hold.tree_rename, Tree.leaving_rename, hdestroy]
    rfl
  | reserve => exact congrArg (Hold.mk · _) (congrArg Prod.snd (Tree.reserve_rename h.tree))
  | commit i r => exact congrArg (Hold.mk · _) (congrArg Prod.snd (Tree.commit_rename h.tree i r))
  | write i position byte => exact congrArg (Hold.mk · _) (Tree.write_rename h.tree i position byte)
  | enter detail =>
    rw [rename, apply, apply, Hold.tree_rename, Tree.push_rename, Hold.depth_rename]
    rcases h.tree.push with ⟨_ | boundary, t⟩ <;> rfl
  | exit call how =>
    have hback : (((h.tree.rename θ).enter (call.resume.rename θ)).destroy
        (call.boundary.rename θ)).2 =
          ((h.tree.enter call.resume).destroy call.boundary).2.rename θ := by
      rw [Tree.enter_rename, hdestroy]
    cases how with
    | returned => exact congrArg (Hold.mk · _) (Tree.enter_rename h.tree call.resume)
    | failed => exact congrArg (Hold.mk · _) hback
    | panicked => exact congrArg (Hold.mk · _) hback

/-- What it makes due then. -/
theorem due_rename (c : Change) (h : Hold) :
    (c.rename θ).due (h.rename θ) = (c.due h).map (·.rename θ) := by
  have hback : ∀ call : ProtectedCall,
      Ledger.dueOf ((h.tree.rename θ).enter (call.resume.rename θ)) (call.boundary.rename θ) =
        (Ledger.dueOf (h.tree.enter call.resume) call.boundary).map (·.rename θ) := fun call => by
    rw [Tree.enter_rename, Ledger.dueOf_rename]
  cases c with
  | push | pop | reserve | write | enter => rfl
  | destroy s => exact Ledger.dueOf_rename h.tree s
  | leave s =>
    rw [rename, due, due, Hold.tree_rename, Tree.leaving_rename, Ledger.dueOf_rename]
  | commit i r =>
    rw [rename, due, due, Hold.tree_rename, Tree.commit_rename]
    dsimp only
    split <;> rfl
  | exit call how =>
    cases how with
    | returned => rfl
    | failed => exact hback call
    | panicked => exact hback call

end Change

end ScopedResources
