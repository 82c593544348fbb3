/-
  Ledgers: what a world owns, and what it has released.

  A ledger is a world without all that has no part in ownership: the host, the
  locks, the log and the names.  What the operations do to a ledger is a
  function, with no order of effects to follow; that they do it is in
  `ScopedResources.Proofs.Effect`.

  * `Ledger.release`, `Ledger.dropWithin`, `Ledger.destroy` are the teardowns.
  * `Outlasts`: running releases may end contexts and adds to what was released,
    and does nothing else.
  * `InTurn`: releases run in the order in which they are due.
-/
import ScopedResources.Proofs.WellFormed
import ScopedResources.Run.Release

namespace ScopedResources

/-- What a context owns, and the protected call that is innermost in it. -/
structure Hold where
  tree : Tree Release
  frame : Option Frame

/-- What a world owns, and what it has released. -/
structure Ledger where
  /-- How many contexts were created. -/
  count : Nat
  /-- What the contexts that are alive own. -/
  hold : ContextId → Option Hold
  /-- The releases that were run, the last first. -/
  ran : List (Due Release)

/-- A context without its program's name. -/
def Context.hold (c : Context) : Hold :=
  ⟨c.tree, c.frame⟩

/-- What a world owns, and what it has released. -/
def World.ledger (w : World) : Ledger :=
  ⟨w.contexts.size, fun k => (w.context? k).map Context.hold, w.journal.ran⟩

theorem World.hold_of_context? {w : World} {k : ContextId} {c : Option Context}
    (hc : w.context? k = c) : w.ledger.hold k = c.map Context.hold :=
  congrArg (Option.map Context.hold) hc

theorem World.context_of_context? {w : World} {k : ContextId} {c : Context}
    (hc : w.context? k = some c) : w.context k = c := by
  rw [World.context, hc]
  rfl

namespace Ledger

variable {l l' l'' : Ledger} {k j : ContextId} {b : Nat}

theorem ext_of (hc : l.count = l'.count) (hh : ∀ k, l.hold k = l'.hold k) (hr : l.ran = l'.ran) :
    l = l' := by
  cases l; cases l'
  simp only [mk.injEq] at *
  exact ⟨hc, funext hh, hr⟩

/-- Changes what a context owns; a context that is gone stays gone. -/
def onHold (l : Ledger) (k : ContextId) (f : Hold → Hold) : Ledger :=
  { l with hold := fun j => if j = k then (l.hold j).map f else l.hold j }

/-- Changes the tree of a context. -/
def onTree (l : Ledger) (k : ContextId) (f : Tree Release → Tree Release) : Ledger :=
  l.onHold k fun h => { h with tree := f h.tree }

/-- Takes a context out. -/
def take (l : Ledger) (k : ContextId) : Ledger :=
  { l with hold := fun j => if j = k then none else l.hold j }

/-- Notes a release as run. -/
def note (l : Ledger) (due : Due Release) : Ledger :=
  { l with ran := due :: l.ran }

/-! ## Teardowns -/

/-- Runs a release; `drop` drops another context. -/
def release (drop : ContextId → Ledger → Ledger) (due : Due Release) (l : Ledger) : Ledger :=
  match due.release with
  | .dropContext _ victim => drop victim (l.note due)
  | .note _ _ | .close _ | .forget _ | .restoreName _ | .leaveLock _ => l.note due

/-- Runs releases one after the other. -/
def releaseAll (drop : ContextId → Ledger → Ledger) : List (Due Release) → Ledger → Ledger
  | [], l => l
  | due :: more, l => releaseAll drop more (release drop due l)

/-- What a teardown of a scope makes due. -/
def dueOf (t : Tree Release) (s : Index) : List (Due Release) :=
  ((t.destroy s).1.map (·.due)).getD []

/-- Drops a context; the first argument bounds how deep drops nest. -/
def dropWithin : Nat → ContextId → Ledger → Ledger
  | 0, _, l => l
  | bound + 1, k, l =>
    match l.hold k with
    | some h => releaseAll (dropWithin bound) (dueOf h.tree h.tree.top) (l.take k)
    | none => l

/-- Drops a context. -/
def drop (k : ContextId) (l : Ledger) : Ledger :=
  dropWithin l.count k l

/-- What a context owns; a context that is gone answers as an empty one. -/
def answer (l : Ledger) (k : ContextId) : Hold :=
  (l.hold k).getD (Context.new k "").hold

/-- Tears a scope down. -/
def destroy (l : Ledger) (k : ContextId) (s : Index) : Ledger :=
  releaseAll drop (dueOf (l.answer k).tree s) (l.onTree k fun t => (t.destroy s).2)

/-! ## What a context owns after a change -/

@[simp] theorem count_onHold (l : Ledger) (k : ContextId) (f : Hold → Hold) :
    (l.onHold k f).count = l.count := rfl

@[simp] theorem ran_onHold (l : Ledger) (k : ContextId) (f : Hold → Hold) :
    (l.onHold k f).ran = l.ran := rfl

@[simp] theorem count_onTree (l : Ledger) (k : ContextId) (f : Tree Release → Tree Release) :
    (l.onTree k f).count = l.count := rfl

@[simp] theorem ran_onTree (l : Ledger) (k : ContextId) (f : Tree Release → Tree Release) :
    (l.onTree k f).ran = l.ran := rfl

theorem hold_onHold (l : Ledger) (k j : ContextId) (f : Hold → Hold) :
    (l.onHold k f).hold j = if j = k then (l.hold j).map f else l.hold j := rfl

theorem hold_onTree (l : Ledger) (k j : ContextId) (f : Tree Release → Tree Release) :
    (l.onTree k f).hold j =
      if j = k then (l.hold j).map fun h => { h with tree := f h.tree } else l.hold j := rfl

@[simp] theorem count_take (l : Ledger) (k : ContextId) : (l.take k).count = l.count := rfl

@[simp] theorem ran_take (l : Ledger) (k : ContextId) : (l.take k).ran = l.ran := rfl

theorem hold_take (l : Ledger) (k j : ContextId) :
    (l.take k).hold j = if j = k then none else l.hold j := rfl

@[simp] theorem hold_note (l : Ledger) (due : Due Release) : (l.note due).hold = l.hold := rfl

@[simp] theorem count_note (l : Ledger) (due : Due Release) : (l.note due).count = l.count := rfl

@[simp] theorem ran_note (l : Ledger) (due : Due Release) :
    (l.note due).ran = due :: l.ran := rfl

theorem answer_of_hold {h : Hold} (hk : l.hold k = some h) : l.answer k = h := by
  rw [answer, hk]; rfl

/-- A change that changes nothing where it is made. -/
theorem onHold_eq_self {f : Hold → Hold} (h : ∀ x, l.hold k = some x → f x = x) :
    l.onHold k f = l := by
  refine ext_of rfl (fun j => ?_) rfl
  rw [hold_onHold]
  split
  · rename_i hj
    rcases hx : l.hold j with _ | x
    · rfl
    · rw [Option.map_some, h x (hj ▸ hx)]
  · rfl

/-! ## What releases leave alone -/

/-- What running releases does: contexts may end, others stay as they are, and
    what was released stays so. -/
structure Outlasts (l l' : Ledger) : Prop where
  count : l'.count = l.count
  hold : ∀ k h, l'.hold k = some h → l.hold k = some h
  ran : ∃ new, l'.ran = new ++ l.ran

theorem Outlasts.refl (l : Ledger) : Outlasts l l :=
  ⟨rfl, fun _ _ h => h, [], rfl⟩

theorem Outlasts.trans (h : Outlasts l l') (h' : Outlasts l' l'') : Outlasts l l'' := by
  obtain ⟨new, hn⟩ := h.ran
  obtain ⟨new', hn'⟩ := h'.ran
  exact ⟨h'.count.trans h.count, fun k x hx => h.hold k x (h'.hold k x hx),
    new' ++ new, by rw [hn', hn, List.append_assoc]⟩

theorem outlasts_take (l : Ledger) (k : ContextId) : Outlasts l (l.take k) := by
  refine ⟨rfl, fun j h hj => ?_, [], rfl⟩
  rw [hold_take] at hj
  split at hj
  · cases hj
  · exact hj

theorem outlasts_note (l : Ledger) (due : Due Release) : Outlasts l (l.note due) :=
  ⟨rfl, fun _ _ h => h, [due], rfl⟩

theorem outlasts_release {drop : ContextId → Ledger → Ledger}
    (hd : ∀ k l, Outlasts l (drop k l)) (due : Due Release) (l : Ledger) :
    Outlasts l (release drop due l) := by
  unfold release
  split
  · exact (outlasts_note l due).trans (hd _ _)
  all_goals exact outlasts_note l due

theorem outlasts_releaseAll {drop : ContextId → Ledger → Ledger}
    (hd : ∀ k l, Outlasts l (drop k l)) : ∀ (due : List (Due Release)) (l : Ledger),
    Outlasts l (releaseAll drop due l)
  | [], l => .refl l
  | d :: more, l => (outlasts_release hd d l).trans (outlasts_releaseAll hd more _)

theorem outlasts_dropWithin : ∀ (b : Nat) (k : ContextId) (l : Ledger),
    Outlasts l (dropWithin b k l)
  | 0, _, l => .refl l
  | b + 1, k, l => by
    rw [dropWithin]
    split
    · exact (outlasts_take l k).trans (outlasts_releaseAll (outlasts_dropWithin b) _ _)
    · exact .refl l

theorem outlasts_drop (k : ContextId) (l : Ledger) : Outlasts l (drop k l) :=
  outlasts_dropWithin _ _ _

/-! ## The order of releases -/

/-- What has run when some releases were due: each in its turn, and after one
    that drops a context the releases of that context. -/
inductive InTurn : List (Due Release) → List (Due Release) → Prop
  | nil : InTurn [] []
  | cons {d : Due Release} {due inner ran : List (Due Release)} :
    ((∀ label victim, d.release ≠ .dropContext label victim) → inner = []) →
    InTurn due ran → InTurn (d :: due) (d :: (inner ++ ran))

/-- What is due has run, in order. -/
theorem InTurn.sublist {due ran : List (Due Release)} (h : InTurn due ran) : due.Sublist ran := by
  induction h with
  | nil => exact .slnil
  | cons _ _ ih => exact (ih.trans (List.sublist_append_right _ _)).cons_cons _

/-- Nothing else has run, if no release drops a context. -/
theorem InTurn.eq {due ran : List (Due Release)} (h : InTurn due ran)
    (hd : ∀ d ∈ due, ∀ label victim, d.release ≠ .dropContext label victim) : ran = due := by
  induction h with
  | nil => rfl
  | cons hinner _ ih =>
    rw [hinner (hd _ (List.mem_cons_self ..)), ih fun d hm => hd d (List.mem_cons_of_mem _ hm)]
    rfl

theorem inTurn_releaseAll {drop : ContextId → Ledger → Ledger}
    (hd : ∀ k l, Outlasts l (drop k l)) : ∀ (due : List (Due Release)) (l : Ledger),
    ∃ new, (releaseAll drop due l).ran = new.reverse ++ l.ran ∧ InTurn due new
  | [], l => ⟨[], rfl, .nil⟩
  | d :: more, l => by
    obtain ⟨new, hn, hi⟩ := inTurn_releaseAll hd more (release drop d l)
    have hrelease : ∃ inner, (release drop d l).ran = inner.reverse ++ d :: l.ran ∧
        ((∀ label victim, d.release ≠ .dropContext label victim) → inner = []) := by
      unfold release
      split
      · rename_i label victim hdrop
        obtain ⟨inner, hinner⟩ := (hd victim (l.note d)).ran
        refine ⟨inner.reverse, by rw [List.reverse_reverse]; exact hinner, fun h => ?_⟩
        exact absurd hdrop (h label victim)
      all_goals exact ⟨[], rfl, fun _ => rfl⟩
    obtain ⟨inner, hinner, hnone⟩ := hrelease
    refine ⟨d :: (inner ++ new), ?_, .cons hnone hi⟩
    rw [releaseAll, hn, hinner]
    simp

end Ledger

end ScopedResources
