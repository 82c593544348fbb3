/-
  Acquiring all or nothing.

  What is acquired inside a protected call is acquired completely or not at all.  A failed
  attempt leaves no descriptor open and no release attached; what stays are records that
  were reserved for it, which no teardown runs anything for.

  * `Acquisition` are the operations that acquire something for a scope.
  * `Tree.Grown` compares a tree with one that has some more nodes; `Tree.Receives` says
    that the new nodes are records, in the current scope or in one that was begun for them.
  * `Run.Yields` is how an attempt ends, and is composed of its steps: reserving, asking the
    host, committing.
  * `World.Inert`: no teardown runs anything for a record, now or later.
  * `acquires_all_or_nothing`: how an acquisition ends.
-/
import ScopedResources.Proofs.Demands
import ScopedResources.Proofs.Descriptors
import ScopedResources.Proofs.ProtectedCall
import ScopedResources.Proofs.Razing

namespace ScopedResources

variable {α β : Type} {w w₁ w₂ w' : World} {k : ContextId} {c c₁ c' : Context}
  {t t₁ t₂ t' : Tree Release} {i p : Index} {n : Nat} {node : Node Release} {r : Release}
  {direct : List Index} {added pre post : List (Index × Node Release)}
  {l before rest : List (Index × Option Release)} {fds more : List Int}

/-! ## Acquisitions -/

/-- The operations that acquire something for a scope. -/
inductive Acquisition : Type → Type where
  | alloc (size : Nat) : Acquisition Index
  | format (f : Format) : Acquisition Index
  | duplicateText (text : String) : Acquisition Index
  | openFile (path : Bytes) (flags : Host.OpenFlags) (mode : Nat) : Acquisition Nat
  | openPipe : Acquisition (Nat × Nat)
  | duplicate (fd : Int) : Acquisition Nat
  | duplicateHandle (fd : Int) : Acquisition (Handle Nat)

namespace Acquisition

/-- The acquisition as a run. -/
def run (k : ContextId) : Acquisition α → Run α
  | alloc size => Run.alloc k size
  | format f => Run.format k f
  | duplicateText text => Run.duplicateText k text
  | openFile path flags mode => Run.openFile k path flags mode
  | openPipe => Run.openPipe k
  | duplicate fd => Run.duplicate k fd
  | duplicateHandle fd => Run.duplicateHandle k fd

/-- How many records it reserves. -/
def count : Acquisition α → Nat
  | openPipe => 2
  | alloc _ | format _ | duplicateText _ | openFile _ _ _ | duplicate _ | duplicateHandle _ => 1

/-- Whether it begins a scope of its own for them. -/
def isPrivate : Acquisition α → Bool
  | duplicateHandle _ => true
  | alloc _ | format _ | duplicateText _ | openFile _ _ _ | openPipe | duplicate _ => false

/-- The scope of its own that it gives. -/
def scope? : Acquisition α → α → Option Index
  | duplicateHandle _, handle => some handle.scope
  | alloc _, _ | format _, _ | duplicateText _, _ | openFile _ _ _, _ | openPipe, _
  | duplicate _, _ => none

/-- The record that it gives. -/
def record? : Acquisition α → α → Option Index
  | alloc _, i | format _, i | duplicateText _, i => some i
  | openFile _ _ _, _ | openPipe, _ | duplicate _, _ | duplicateHandle _, _ => none

/-- The releases of what it has acquired, the newest first. -/
def releases : Acquisition α → α → List Release
  | alloc size, _ => [.forget (.block (.zeroed size))]
  | format f, _ => [.forget (.text f.text)]
  | duplicateText text, _ => [.forget (.text text)]
  | openFile _ _ _, fd | duplicate _, fd => [.close fd]
  | openPipe, (readEnd, writeEnd) => [.close writeEnd, .close readEnd]
  | duplicateHandle _, handle => [.close handle.value]

/-- The descriptors that it has acquired. -/
def descriptors : Acquisition α → α → List Int
  | alloc _, _ | format _, _ | duplicateText _, _ => []
  | openFile _ _ _, fd | duplicate _, fd => [fd]
  | openPipe, (readEnd, writeEnd) => [readEnd, writeEnd]
  | duplicateHandle _, handle => [handle.value]

/-- A completed acquisition has got these records and these descriptors. -/
structure Gets (x : Acquisition α) (a : α) (l : List (Index × Option Release))
    (fds : List Int) : Prop where
  releases : l.map (·.2) = (x.releases a).map some
  descriptors : fds = x.descriptors a
  record : ∀ i ∈ x.record? a, l.map (·.1) = [i]

theorem composed (x : Acquisition α) (k : ContextId) : Composed (x.run k) := by
  cases x with
  | alloc size => exact Run.composed_alloc k size
  | format f => exact Run.composed_format k f
  | duplicateText text => exact Run.composed_duplicateText k text
  | openFile path flags mode => exact Run.composed_openFile k path flags mode
  | openPipe => exact Run.composed_openPipe k
  | duplicate fd => exact Run.composed_duplicate k fd
  | duplicateHandle fd => exact Run.composed_createHandle k (Run.composed_duplicate k fd)

end Acquisition

/-! ## Trees that have grown -/

namespace Tree

/-- There is no room for another node. -/
def Full (t : Tree Release) : Prop :=
  ∀ node, (t.nodes.insert node).1 = none

/-- Some nodes were added to a tree, of which `direct` are new children of the scope that
    was current; no other node has changed. -/
structure Grown (t t' : Tree Release) (direct : List Index)
    (added : List (Index × Node Release)) : Prop where
  top : t'.top = t.top
  nodup : (added.map (·.1)).Nodup
  fresh : ∀ e ∈ added, t.nodes.get? e.1 = none
  alive : ∀ e ∈ added, t'.nodes.get? e.1 = some e.2
  children : ∃ q cs, t.nodes.get? t.current = some (.scope q cs) ∧
    t'.nodes.get? t.current = some (.scope q (direct ++ cs))
  other : ∀ j, j ≠ t.current → j ∉ added.map (·.1) → t'.nodes.get? j = t.nodes.get? j

/-- Records in a scope, with the releases that they were given. -/
def recordsIn (s : Index) (l : List (Index × Option Release)) : List (Index × Node Release) :=
  l.map fun e => (e.1, .record s e.2)

/-- The new nodes are records: in the scope that was current, or in one that was begun in
    it for them. -/
inductive Receives (t t' : Tree Release) (l : List (Index × Option Release)) :
    Option Index → Prop
  | current : t.Grown t' (l.map (·.1)) (recordsIn t.current l) → Receives t t' l none
  | inside {p : Index} :
    t.Grown t' [p] ((p, .scope (some t.current) (l.map (·.1))) :: recordsIn p l) →
    Receives t t' l (some p)

theorem full_of_addChild (node : Node Release) (h : (t.addChild node).1 = none) : t.Full := by
  obtain ⟨nodes, top, current⟩ := t
  have hnone : (nodes.insert node).1 = none := by
    rw [addChild] at h
    rcases hins : nodes.insert node with ⟨_ | i, nodes'⟩
    · rfl
    · rw [hins] at h
      dsimp only at h
      split at h <;> cases h
  intro node'
  show (nodes.insert node').1 = none
  -- where there is room does not depend on what is put there
  rw [Slots.insert] at hnone ⊢
  split
  · rename_i n hn
    rw [hn] at hnone
    dsimp only at hnone
    split
    · rename_i next g hg
      rw [hg] at hnone
      cases hnone
    · rfl
  · rename_i hn
    rw [hn] at hnone
    dsimp only at hnone
    split
    · rename_i hlt
      rw [if_pos hlt] at hnone
      cases hnone
    · rfl

namespace Grown

theorem refl (hc : t.isScope t.current = true) : t.Grown t [] [] := by
  obtain ⟨q, cs, hc⟩ := isScope_iff.1 hc
  exact ⟨rfl, .nil, by simp, by simp, ⟨q, cs, hc, hc⟩, fun _ _ _ => rfl⟩

theorem isScope_current (h : t.Grown t₁ direct added) : t₁.isScope t.current = true := by
  obtain ⟨q, cs, -, hc⟩ := h.children
  exact isScope_iff.2 ⟨q, _, hc⟩

theorem ne_current (h : t.Grown t₁ direct added) {e : Index × Node Release} (he : e ∈ added) :
    e.1 ≠ t.current := by
  intro hcur
  obtain ⟨q, cs, hc, -⟩ := h.children
  have hfresh := h.fresh e he
  rw [hcur, hc] at hfresh
  cases hfresh

/-- What is free in the end was free before. -/
theorem fresh_of_fresh (h : t.Grown t₁ direct added) (hi : t₁.nodes.get? i = none) :
    t.nodes.get? i = none ∧ i ∉ added.map (·.1) ∧ i ≠ t.current := by
  have hcur : i ≠ t.current := by
    rintro rfl
    obtain ⟨q, cs, -, hc⟩ := h.children
    rw [hi] at hc
    cases hc
  have hnot : i ∉ added.map (·.1) := by
    intro hmem
    obtain ⟨e, he, rfl⟩ := List.mem_map.1 hmem
    rw [h.alive e he] at hi
    cases hi
  exact ⟨(h.other i hcur hnot).symm.trans hi, hnot, hcur⟩

/-- The current scope gets a child. -/
theorem addChild (h : t.Grown t₁ direct added) (hcur : t₁.current = t.current)
    (ha : t₁.addChild node = (some i, t₂)) :
    t.Grown t₂ (i :: direct) ((i, node) :: added) ∧ t₂.current = t.current := by
  have hscope : t₁.isScope t₁.current = true := by
    rw [hcur]
    exact h.isScope_current
  obtain ⟨q, cs, hc, hc₁⟩ := h.children
  obtain ⟨nodes, hI, -, ht₂⟩ := addChild_some (by rw [hcur]; exact hc₁) ha
  obtain ⟨hfresh, hnot, hne⟩ := h.fresh_of_fresh hI.fresh
  have hsame : ∀ j, j ≠ i → j ≠ t.current → t₂.nodes.get? j = t₁.nodes.get? j := fun j hj hjc =>
    get?_addChild_ne hscope ha hj (by rw [hcur]; exact hjc)
  refine ⟨⟨?_, List.nodup_cons.2 ⟨hnot, h.nodup⟩, ?_, ?_, ⟨q, cs, hc, ?_⟩, ?_⟩, ?_⟩
  · rw [ht₂]
    exact h.top
  · exact List.forall_mem_cons.2 ⟨hfresh, h.fresh⟩
  · refine List.forall_mem_cons.2 ⟨get?_addChild hscope ha, fun e he => ?_⟩
    have hei : e.1 ≠ i := fun hei => hnot (hei ▸ List.mem_map_of_mem he)
    rw [hsame e.1 hei (h.ne_current he)]
    exact h.alive e he
  · rw [← hcur] at hc₁ ⊢
    exact get?_addChild_current hc₁ ha
  · intro j hjc hj
    rw [List.map_cons, List.mem_cons, not_or] at hj
    rw [hsame j hj.1 hjc]
    exact h.other j hjc hj.2
  · rw [ht₂]
    exact hcur

/-- One of the new nodes is replaced. -/
theorem set (h : t.Grown t₁ direct (pre ++ (i, node) :: post)) (node' : Node Release)
    (ht : t₂.nodes = t₁.nodes.set i node') (htop : t₂.top = t₁.top) :
    t.Grown t₂ direct (pre ++ (i, node') :: post) := by
  have hkeys : (pre ++ (i, node') :: post).map (·.1) = (pre ++ (i, node) :: post).map (·.1) := by
    simp
  have hi := h.alive (i, node) (by simp)
  have hne := h.ne_current (e := (i, node)) (by simp)
  have hother : ∀ j, j ≠ i → t₂.nodes.get? j = t₁.nodes.get? j := fun j hj => by
    rw [ht, Slots.get?_set_ne _ _ hj]
  -- the nodes before and after it have other indices
  have hnodup := h.nodup
  rw [List.map_append, List.map_cons, List.nodup_middle, List.nodup_cons, ← List.map_append]
    at hnodup
  have hrest : ∀ e ∈ pre ++ post, e.1 ≠ i := fun e he hei =>
    hnodup.1 (List.mem_map.2 ⟨e, he, hei⟩)
  have hmem : ∀ e, e ∈ pre ++ (i, node') :: post → e = (i, node') ∨ e ∈ pre ++ post := by
    intro e he
    simp only [List.mem_append, List.mem_cons] at he ⊢
    tauto
  have hold : ∀ e ∈ pre ++ post, e ∈ pre ++ (i, node) :: post := by
    intro e he
    simp only [List.mem_append, List.mem_cons] at he ⊢
    tauto
  refine ⟨htop.trans h.top, by rw [hkeys]; exact h.nodup, ?_, ?_, ?_, ?_⟩
  · intro e he
    rcases hmem e he with rfl | he
    · exact h.fresh (i, node) (by simp)
    · exact h.fresh e (hold e he)
  · intro e he
    rcases hmem e he with rfl | he
    · rw [ht, Slots.get?_set_self hi]
    · rw [hother e.1 (hrest e he)]
      exact h.alive e (hold e he)
  · obtain ⟨q, cs, hc, hc₁⟩ := h.children
    exact ⟨q, cs, hc, by rw [hother t.current hne.symm]; exact hc₁⟩
  · intro j hjc hj
    rw [hkeys] at hj
    rw [hother j ?_]
    · exact h.other j hjc hj
    · rintro rfl
      exact hj (by simp)

/-- What grows in a scope that was begun before, grows in a scope of its own. -/
theorem inside (hc : t.isScope t.current = true) (hp : t.push = (some p, t₁))
    (h : t₁.Grown t' direct added) :
    t.Grown t' [p] ((p, .scope (some t.current) direct) :: added) := by
  rcases ha : t.addChild (.scope (some t.current) []) with ⟨_ | j, u⟩
  · simp [push, ha] at hp
  simp only [push, ha, Prod.mk.injEq, Option.some.injEq] at hp
  obtain ⟨rfl, rfl⟩ := hp
  obtain ⟨hg, -⟩ := (refl hc).addChild rfl ha
  obtain ⟨q, cs, hj, hj'⟩ := h.children
  have hself : u.nodes.get? j = some (.scope (some t.current) []) := hg.alive (j, _) (by simp)
  obtain ⟨q₀, cs₀, hc₀, hcu⟩ := hg.children
  have hjc : t.current ≠ j := fun he => hg.ne_current (e := (j, _)) (List.mem_singleton_self _) he.symm
  have hsame : ∀ i, i ≠ j → i ∉ added.map (·.1) → t'.nodes.get? i = u.nodes.get? i := h.other
  have hcnot : t.current ∉ added.map (·.1) := by
    intro hmem
    obtain ⟨e, he, hec⟩ := List.mem_map.1 hmem
    have hfresh : u.nodes.get? e.1 = none := h.fresh e he
    rw [hec, hcu] at hfresh
    cases hfresh
  change u.nodes.get? j = _ at hj
  change t'.nodes.get? j = _ at hj'
  rw [hself] at hj
  cases hj
  refine ⟨h.top.trans hg.top, ?_, ?_, ?_, ⟨q₀, cs₀, hc₀, ?_⟩, ?_⟩
  · refine List.nodup_cons.2 ⟨fun hmem => ?_, h.nodup⟩
    obtain ⟨e, he, hej⟩ := List.mem_map.1 hmem
    exact h.ne_current he hej
  · have hj₀ := hg.fresh (j, .scope (some t.current) []) (List.mem_singleton_self _)
    refine List.forall_mem_cons.2 ⟨hj₀, fun e he => ?_⟩
    exact (hg.fresh_of_fresh (h.fresh e he)).1
  · refine List.forall_mem_cons.2 ⟨?_, h.alive⟩
    rw [List.append_nil] at hj'
    exact hj'
  · rw [hsame t.current hjc hcnot]
    exact hcu
  · intro i hi hmem
    rw [List.map_cons, List.mem_cons, not_or] at hmem
    rw [hsame i hmem.1 hmem.2]
    refine hg.other i hi ?_
    rw [List.map_singleton, List.mem_singleton]
    exact hmem.1

end Grown

end Tree

/-! ## Attempts -/

/-- A context has become another with the same frame and name, and the descriptors `fds`
    were given out; nothing was released, and the other contexts are as they were. -/
structure World.Turns (w : World) (k : ContextId) (c : Context) (fds : List Int) (w' : World)
    (c' : Context) : Prop where
  context : w'.context? k = some c'
  frame : c'.frame = c.frame
  program : c'.program = c.program
  other : ∀ j, j ≠ k → w'.context? j = w.context? j
  ran : w'.journal.ran = w.journal.ran
  opened : w.host.Opened w'.host fds

/-- All that a context has got are records, which an acquisition has reserved. -/
structure World.Receives (w : World) (k : ContextId) (c : Context) (home : Option Index)
    (l : List (Index × Option Release)) (fds : List Int) (w' : World) (c' : Context) : Prop
    extends World.Turns w k c fds w' c' where
  tree : c.tree.Receives c'.tree l home

/-- An attempt is under way in the current scope, which has got some records. -/
structure World.Reserves (w : World) (k : ContextId) (c : Context)
    (l : List (Index × Option Release)) (fds : List Int) (w' : World) (c' : Context) : Prop
    extends World.Turns w k c fds w' c' where
  tree : c.tree.Grown c'.tree (l.map (·.1)) (Tree.recordsIn c.tree.current l)
  current : c'.tree.current = c.tree.current

namespace World

theorem Turns.trans {c₂ : Context} (h : w.Turns k c fds w₁ c₁) (h' : w₁.Turns k c₁ more w₂ c₂) :
    w.Turns k c (fds ++ more) w₂ c₂ where
  context := h'.context
  frame := h'.frame.trans h.frame
  program := h'.program.trans h.program
  other j hj := (h'.other j hj).trans (h.other j hj)
  ran := h'.ran.trans h.ran
  opened := h.opened.trans h'.opened

theorem turns_of_still (hs : w.Still w') (hl : w'.ledger = w.ledger) (hc : w.context? k = some c) :
    w.Turns k c [] w' c where
  context := (hs.context?_eq hl k).trans hc
  frame := rfl
  program := rfl
  other j _ := hs.context?_eq hl j
  ran := hs.ran
  opened := Host.opened_nil hs.descriptors

theorem turns_onTree (hc : w.context? k = some c) (f : Tree Release → α × Tree Release) :
    ∃ w', (Run.onTree k f).exec w = (.ok (f c.tree).1, w') ∧
      w.Turns k c [] w' { c with tree := (f c.tree).2 } := by
  obtain ⟨w', hexec, hstill, hc'⟩ := Run.exec_onTree_context hc f
  refine ⟨w', hexec, hc', rfl, rfl, fun j hj => ?_, hstill.ran, Host.opened_nil hstill.descriptors⟩
  have hw' : ((Run.onTree k f).exec w).2 = w' := by rw [hexec]
  rw [← hw', Run.onTree, Run.exec_onContext, context?_onContext, if_neg hj]

theorem turns_host {call : Host.Call α} (hc : w.context? k = some c)
    (ho : w.host.Opened (call.exec w.host).2 fds) :
    w.Turns k c fds { w with host := (call.exec w.host).2 } c :=
  ⟨hc, rfl, rfl, fun _ _ => rfl, rfl, ho⟩

namespace Reserves

theorem refl (hc : w.context? k = some c) (hscope : c.tree.isScope c.tree.current = true) :
    w.Reserves k c [] [] w c :=
  ⟨turns_of_still (.refl w) rfl hc, .refl hscope, rfl⟩

theorem turns (h : w.Reserves k c l fds w₁ c₁) (h' : w₁.Turns k c₁ more w₂ c₁) :
    w.Reserves k c l (fds ++ more) w₂ c₁ :=
  ⟨h.toTurns.trans h', h.tree, h.current⟩

theorem receives (h : w.Reserves k c l fds w' c') : w.Receives k c none l fds w' c' :=
  ⟨h.toTurns, .current h.tree⟩

/-- The scope that was begun first is the home of the records. -/
theorem inside {c₀ : Context} {w₀ : World} (h₀ : w₀.Turns k c₀ [] w c)
    (hscope : c₀.tree.isScope c₀.tree.current = true) (hp : c₀.tree.push = (some p, c.tree))
    (hcur : c.tree.current = p) (h : w.Reserves k c l fds w' c') :
    w₀.Receives k c₀ (some p) l fds w' c' := by
  have hgrown := h.tree.inside hscope hp
  rw [hcur] at hgrown
  exact ⟨h₀.trans h.toTurns, .inside hgrown⟩

end Reserves

end World

namespace Run

variable {Q : α → List (Index × Option Release) → List Int → Prop} {frame : Frame}

/-- How an attempt ends that needs `n` records: with a failure, and with records that have
    no release, fewer only if there is no room; or with a result, such as `Q` says. -/
inductive Yields (w : World) (k : ContextId) (c : Context) (n : Nat)
    (Q : α → List (Index × Option Release) → List Int → Prop) : Except Stop α × World → Prop
  | failed {f : Failure} {l : List (Index × Option Release)} {w' : World} {c' : Context} :
    (∀ e ∈ l, e.2 = none) → (l.length = n ∨ l.length < n ∧ c'.tree.Full) →
    w.Reserves k c l [] w' c' → Yields w k c n Q (.error (.failure f), w')
  | done {a : α} {l : List (Index × Option Release)} {fds : List Int} {w' : World} {c' : Context} :
    Q a l fds → w.Reserves k c l fds w' c' → Yields w k c n Q (.ok a, w')

theorem Yields.imp {Q' : α → List (Index × Option Release) → List Int → Prop}
    {result : Except Stop α × World} (h : Yields w k c n Q result)
    (hQ : ∀ a l fds, Q a l fds → Q' a l fds) : Yields w k c n Q' result := by
  cases h with
  | failed hnone hcount hs => exact .failed hnone hcount hs
  | done hq hs => exact .done (hQ _ _ _ hq) hs

/-- A run that makes a failure inside a protected call, and does nothing else. -/
structure Makes (k : ContextId) (g : Run Failure) : Prop where
  aside : Aside g
  calm : Calm g
  result : ∀ {w : World} {c : Context} {frame : Frame}, w.context? k = some c →
    c.frame = some frame → ∃ f, (g.exec w).1 = .ok f

theorem makes_fail (k : ContextId) (code : Int) (f : Format) : Makes k (fail k code f) where
  aside := aside_fail k code f
  calm := calm_fail k code f
  result {w c frame} hc hframe := by
    rw [exec_fail hc, Context.failure?, hframe]
    exact ⟨_, rfl⟩

theorem makes_failIo (k : ContextId) (e : IoError) (f : Format) : Makes k (failIo k e f) :=
  makes_fail k e.code _

theorem makes_failNoMemory (k : ContextId) : Makes k (failNoMemory k) where
  aside := aside_failNoMemory k
  calm := calm_failNoMemory k
  result {w c frame} hc hframe := by
    rw [exec_failNoMemory hc, Context.noMemory?, hframe]
    exact ⟨_, rfl⟩

theorem Makes.exec_throwing {g : Run Failure} (hg : Makes k g) (hc : w.context? k = some c)
    (hframe : c.frame = some frame) : ∃ f w', w.Turns k c [] w' c ∧
      ∀ α : Type, (throwing g : Run α).exec w = (.error (.failure f), w') := by
  obtain ⟨f, hf⟩ := hg.result hc hframe
  obtain ⟨w', hexec⟩ := exists_exec_eq hf
  have hcalm := hg.calm w
  have haside := hg.aside w
  rw [hexec] at hcalm haside
  exact ⟨f, w', World.turns_of_still hcalm haside hc, fun α => by rw [throwing, exec_bind_ok hexec]; rfl⟩

/-- A failure ends the attempt, after all records were reserved. -/
theorem yields_throwing {g : Run Failure} (hg : Makes k g) (hframe : c.frame = some frame)
    (hnone : ∀ e ∈ l, e.2 = none) (hn : l.length = n) (hs : w.Reserves k c l [] w₁ c₁) :
    Yields w k c n Q ((throwing g : Run α).exec w₁) := by
  obtain ⟨f, w₂, hturns, hexec⟩ := hg.exec_throwing hs.context (hs.frame.trans hframe)
  rw [hexec α]
  exact .failed hnone (.inl hn) (hs.turns hturns)

theorem yields_throwing_bind {g : Run Failure} (hg : Makes k g) (hframe : c.frame = some frame)
    (hnone : ∀ e ∈ l, e.2 = none) (hn : l.length = n) (hs : w.Reserves k c l [] w₁ c₁)
    (f : β → Run α) : Yields w k c n Q ((throwing g >>= f).exec w₁) := by
  obtain ⟨failure, w₂, hturns, hexec⟩ := hg.exec_throwing hs.context (hs.frame.trans hframe)
  rw [exec_bind_error (hexec β)]
  exact .failed hnone (.inl hn) (hs.turns hturns)

/-- A record is reserved, or there is no room for it. -/
theorem yields_reserving {f : Index → Run α} (hframe : c.frame = some frame)
    (hnone : ∀ e ∈ l, e.2 = none) (hn : l.length < n) (hs : w.Reserves k c l [] w₁ c₁)
    (hf : ∀ i w₂ c₂, w.Reserves k c ((i, none) :: l) [] w₂ c₂ → Yields w k c n Q ((f i).exec w₂)) :
    Yields w k c n Q ((reserve k >>= f).exec w₁) := by
  rcases hr : c₁.tree.reserve with ⟨_ | i, t⟩
  · -- the tree stays as it is, and the failure is made at once
    have hsame := Tree.reserve_none hr
    rw [hsame] at hr
    obtain ⟨failure, w₂, hturns, hexec⟩ :=
      (makes_failNoMemory k).exec_throwing hs.context (hs.frame.trans hframe)
    have hreserve : (reserve k).exec w₁ = (.error (.failure failure), w₂) := by
      rw [reserve, exec_bind_ok (exec_onTree_full hs.context hr)]
      exact hexec Index
    have hfull : c₁.tree.Full := Tree.full_of_addChild _ (congrArg Prod.fst hr)
    rw [exec_bind_error hreserve]
    exact .failed hnone (.inr ⟨hn, hfull⟩) (hs.turns hturns)
  · obtain ⟨w₂, hexec, hturns⟩ := World.turns_onTree hs.context Tree.reserve
    have hreserve : (reserve k).exec w₁ = (.ok i, w₂) := by
      rw [reserve, exec_bind_ok hexec, hr]
      rfl
    rw [exec_bind_ok hreserve]
    rw [hr] at hturns
    have hcur : (Node.record c₁.tree.current none : Node Release) = .record c.tree.current none := by
      rw [hs.current]
    obtain ⟨htree, hcurrent⟩ := hs.tree.addChild hs.current
      (show c₁.tree.addChild (.record c.tree.current none) = (some i, t) by rw [← hcur]; exact hr)
    exact hf i w₂ _ ⟨hs.toTurns.trans hturns, htree, hcurrent⟩

/-- The host is asked for something that needs all the records. -/
theorem yields_granting {call : Host.Call β} {given : β → List Int} (hands : call.Hands given)
    {what : Run String} (hwhat : ∀ w, ∃ text, what.exec w = (.ok text, w)) {f : β → Run α}
    (hframe : c.frame = some frame) (hnone : ∀ e ∈ l, e.2 = none) (hn : l.length = n)
    (hs : w.Reserves k c l [] w₁ c₁)
    (hf : ∀ b w₂, w.Reserves k c l (given b) w₂ c₁ → Yields w k c n Q ((f b).exec w₂)) :
    Yields w k c n Q ((host call >>= fun result => granted k what result >>= f).exec w₁) := by
  have hopened := hands w₁.host
  rw [exec_bind_ok (exec_host call w₁)]
  rcases hr : (call.exec w₁.host).1 with e | b
  · rw [hr] at hopened
    have hs₂ := hs.turns (World.turns_host hs.context hopened)
    obtain ⟨text, htext⟩ := hwhat { w₁ with host := (call.exec w₁.host).2 }
    obtain ⟨failure, w₃, hturns, hexec⟩ := (makes_failIo k (.os e) (.rendered text false)).exec_throwing
      hs₂.context (hs₂.frame.trans hframe)
    have hgranted : (granted k what (.error e) : Run β).exec { w₁ with host := (call.exec w₁.host).2 } =
        (.error (.failure failure), w₃) := by
      show (what >>= fun text => throwing (failIo k (.os e) (.rendered text false)) : Run β).exec _ = _
      rw [exec_bind_ok htext, hexec β]
    rw [exec_bind_error hgranted]
    exact .failed hnone (.inl hn) (hs₂.turns hturns)
  · rw [hr] at hopened
    exact hf b _ (hs.turns (World.turns_host hs.context hopened))

/-- One of the records gets its release. -/
theorem yields_committing (before : List (Index × Option Release)) {f : Unit → Run α}
    (hs : w.Reserves k c (before ++ (i, none) :: rest) fds w₁ c₁)
    (hf : ∀ w₂ c₂, w.Reserves k c (before ++ (i, some r) :: rest) fds w₂ c₂ →
      Yields w k c n Q ((f ()).exec w₂)) :
    Yields w k c n Q ((commit k i r >>= f).exec w₁) := by
  have htree := hs.tree
  have hi := htree.alive (i, .record c.tree.current none) (by simp [Tree.recordsIn])
  have hcommit := Tree.commit_of_record (r := r) hi
  obtain ⟨w₂, hexec, hturns⟩ := World.turns_onTree hs.context (·.commit i r)
  have hdone : (commit k i r).exec w₁ = (.ok (), w₂) := by
    rw [commit, exec_bind_ok hexec, hcommit]
    rfl
  rw [hcommit] at hturns
  rw [exec_bind_ok hdone]
  have hturned := hs.toTurns.trans hturns
  rw [List.append_nil] at hturned
  refine hf w₂ _ ⟨hturned, ?_, hs.current⟩
  have hsplit : ∀ o, Tree.recordsIn c.tree.current (before ++ (i, o) :: rest) =
      Tree.recordsIn c.tree.current before ++ (i, .record c.tree.current o) ::
        Tree.recordsIn c.tree.current rest := fun o => by simp [Tree.recordsIn]
  have hkeys : (before ++ (i, some r) :: rest).map (·.1) =
      (before ++ (i, (none : Option Release)) :: rest).map (·.1) := by
    simp
  rw [hsplit] at htree ⊢
  rw [hkeys]
  exact htree.set _ rfl rfl

/-! ### Each acquisition -/

section
variable (hframe : c.frame = some frame)
include hframe

theorem yields_alloc (size : Nat) (hs : w.Reserves k c [] [] w₁ c₁) :
    Yields w k c 1 (Acquisition.alloc size).Gets ((alloc k size).exec w₁) := by
  refine yields_reserving hframe (by simp) (by simp) hs fun i w₂ c₂ hs => ?_
  dsimp only
  split
  · exact yields_throwing_bind (makes_failNoMemory k) hframe (by simp) rfl hs _
  · refine yields_committing [] hs fun w₃ c₃ hs => ?_
    exact .done ⟨rfl, rfl, by simp [Acquisition.record?]⟩ hs

theorem yields_format (f : Format) (hs : w.Reserves k c [] [] w₁ c₁) :
    Yields w k c 1 (Acquisition.format f).Gets ((format k f).exec w₁) := by
  refine yields_reserving hframe (by simp) (by simp) hs fun i w₂ c₂ hs => ?_
  split
  · rename_i text htext
    have hf : f.text = text := by rw [Format.text, htext]; rfl
    refine yields_committing [] hs fun w₃ c₃ hs => ?_
    exact .done ⟨by simp [Acquisition.releases, hf], rfl, by simp [Acquisition.record?]⟩ hs
  · exact yields_throwing (makes_fail k _ _) hframe (by simp) rfl hs

theorem yields_duplicateText (text : String) (hs : w.Reserves k c [] [] w₁ c₁) :
    Yields w k c 1 (Acquisition.duplicateText text).Gets ((duplicateText k text).exec w₁) := by
  refine (yields_format hframe (.rendered text false) hs).imp fun a l fds h => ?_
  exact ⟨h.releases, h.descriptors, h.record⟩

theorem yields_openFile (path : Bytes) (flags : Host.OpenFlags) (mode : Nat)
    (hs : w.Reserves k c [] [] w₁ c₁) :
    Yields w k c 1 (Acquisition.openFile path flags mode).Gets
      ((openFile k path flags mode).exec w₁) := by
  refine yields_reserving hframe (by simp) (by simp) hs fun i w₂ c₂ hs => ?_
  dsimp only
  split
  · exact yields_throwing_bind (makes_fail k _ _) hframe (by simp) rfl hs _
  · refine yields_granting (Host.hands_openFile path flags mode) (fun w => ⟨_, rfl⟩) hframe (by simp)
      rfl hs fun fd w₃ hs => ?_
    refine yields_committing [] hs fun w₄ c₄ hs => ?_
    exact .done ⟨rfl, rfl, by simp [Acquisition.record?]⟩ hs

theorem yields_openPipe (hs : w.Reserves k c [] [] w₁ c₁) :
    Yields w k c 2 Acquisition.openPipe.Gets ((openPipe k).exec w₁) := by
  refine yields_reserving hframe (by simp) (by simp) hs fun i w₂ c₂ hs => ?_
  refine yields_reserving hframe (by simp) (by simp) hs fun j w₃ c₃ hs => ?_
  refine yields_granting Host.hands_openPipe (fun w => ⟨_, rfl⟩) hframe (by simp) rfl hs
    fun ends w₄ hs => ?_
  refine yields_committing [(j, none)] hs fun w₅ c₅ hs => ?_
  refine yields_committing [] hs fun w₆ c₆ hs => ?_
  exact .done ⟨rfl, rfl, by simp [Acquisition.record?]⟩ hs

theorem yields_duplicate (fd : Int) (hs : w.Reserves k c [] [] w₁ c₁) :
    Yields w k c 1 (Acquisition.duplicate fd).Gets ((duplicate k fd).exec w₁) := by
  refine yields_reserving hframe (by simp) (by simp) hs fun i w₂ c₂ hs => ?_
  refine yields_granting (Host.hands_duplicate fd) (fun w => ⟨_, rfl⟩) hframe (by simp) rfl hs
    fun copy w₃ hs => ?_
  refine yields_committing [] hs fun w₄ c₄ hs => ?_
  exact .done ⟨rfl, rfl, by simp [Acquisition.record?]⟩ hs

end

end Run

/-! ## Records without a release -/

/-- A record without a release has none later, unless it is given one. -/
theorem Trail.release?_eq_none {l l' : Ledger} {steps : List Step} (ht : Trail l steps l')
    (hl : l.Sound) (hnone : ∀ h, l.hold k = some h → h.tree.release? i = none)
    (hsteps : ∀ s ∈ steps, ∀ r, s.op ≠ .change k (.commit i r)) :
    ∀ h, l'.hold k = some h → h.tree.release? i = none := by
  induction ht with
  | nil => exact hnone
  | @cons s steps l' hs _ ih =>
    obtain ⟨hop, hsteps⟩ := List.forall_mem_cons.1 hsteps
    rw [hs] at ih
    refine ih (hl.step s.op) (fun h' hk => ?_) hsteps
    rcases hold_step s.op hk with ⟨-, hk₀⟩ | ⟨h, ch, hk₀, hch, rfl⟩ | ⟨program, -, -, rfl⟩
    · exact hnone h' hk₀
    · obtain ⟨f, hf⟩ := hl.shows k h hk₀
      rw [Option.eq_none_iff_forall_ne_some]
      intro r hr
      obtain ⟨-, ⟨r₀, hr₀, -⟩ | hgiven⟩ := (ch.outcome hf).1.origin hf.isScope_current hr
      · rw [hnone h hk₀] at hr₀
        cases hr₀
      · cases ch with
        | commit record release =>
          cases List.mem_singleton.1 hgiven
          exact hop _ hch
        | _ => cases hgiven
    · exact Tree.release?_new _ _

/-- No teardown runs anything for a record, now or later, unless it is given a release. -/
def World.Inert (w : World) (k : ContextId) (i : Index) : Prop :=
  ∀ (since : List Step) (v : World) (c : Context) (s : Index), Trail w.ledger since v.ledger →
    (∀ e ∈ since, ∀ r, e.op ≠ .change k (.commit i r)) → v.context? k = some c →
    ∀ d ∈ Ledger.dueOf c.tree s, d.record ≠ i

theorem World.inert_of_release? (hl : w.ledger.Sound) (hc : w.context? k = some c)
    (hi : c.tree.release? i = none) : w.Inert k i := by
  rintro since v c' s ht hsince hc' d hd rfl
  have hnone : ∀ h, w.ledger.hold k = some h → h.tree.release? d.record = none := by
    intro h hk
    rw [hold_of_context? hc] at hk
    cases hk
    exact hi
  have hgone := ht.release?_eq_none hl hnone hsince c'.hold (hold_of_context? hc')
  obtain ⟨f, hf⟩ := (ht.sound hl).shows k c'.hold (hold_of_context? hc')
  obtain ⟨o, ho, -⟩ := (show c'.tree.Shows f from hf).mem_dueOf_iff.1 hd
  rw [show c'.hold.tree = c'.tree from rfl, Tree.release?, ho] at hgone
  cases hgone

/-! ## All or nothing -/

namespace Acquisition

/-- What a failed acquisition leaves: the records that it has reserved, none of them with a
    release. -/
structure Abandons (x : Acquisition α) (t t' : Tree Release) (home : Option Index)
    (l : List (Index × Option Release)) : Prop where
  uncommitted : ∀ e ∈ l, e.2 = none
  current : t'.current = home.getD t.current
  home : home.isSome = x.isPrivate ∨ home = none ∧ t'.Full
  /-- There are fewer than it needs only if there is no room for another node. -/
  count : l.length = x.count ∨ l.length < x.count ∧ t'.Full

/-- What a completed acquisition leaves: a record for each thing that it has acquired. -/
structure Completes (x : Acquisition α) (a : α) (t t' : Tree Release) (home : Option Index)
    (l : List (Index × Option Release)) : Prop where
  current : t'.current = t.current
  home : home = x.scope? a
  releases : l.map (·.2) = (x.releases a).map some
  record : ∀ i ∈ x.record? a, l.map (·.1) = [i]
  once : ∀ r ∈ x.releases a, ∃! i, (i, some r) ∈ l

/-- How an acquisition ends in the context `k`, which was `c` in the world `w`. -/
inductive Ends (x : Acquisition α) (k : ContextId) (c : Context) (w : World) :
    Except Stop α → World → Prop
  | failed {f : Failure} {home : Option Index} {l : List (Index × Option Release)} {w' : World}
      {c' : Context} :
    w.Receives k c home l [] w' c' → x.Abandons c.tree c'.tree home l →
    (∀ e ∈ l, w'.Inert k e.1) → Ends x k c w (.error (.failure f)) w'
  | acquired {a : α} {home : Option Index} {l : List (Index × Option Release)} {w' : World}
      {c' : Context} :
    w.Receives k c home l (x.descriptors a) w' c' → x.Completes a c.tree c'.tree home l →
    Ends x k c w (.ok a) w'

variable {x : Acquisition α} {a : α} {home : Option Index}

theorem nodup_releases (x : Acquisition α) {a : α} (h : (x.descriptors a).Nodup) :
    (x.releases a).Nodup := by
  cases x with
  | openPipe =>
    obtain ⟨readEnd, writeEnd⟩ := a
    simp only [descriptors, releases, List.nodup_cons, List.mem_singleton] at h ⊢
    refine ⟨fun he => h.1 ?_, by simp⟩
    cases he
    rfl
  | _ => simp [releases]

theorem Gets.completes (h : x.Gets a l fds) (hnodup : fds.Nodup) (hcur : t'.current = t.current)
    (hhome : home = x.scope? a) : x.Completes a t t' home l := by
  refine ⟨hcur, hhome, h.releases, h.record, fun r hr => ?_⟩
  have hsome : (l.map (·.2)).Nodup := by
    rw [h.releases]
    exact (x.nodup_releases (h.descriptors ▸ hnodup)).map (Option.some_injective _)
  have hmem : some r ∈ l.map (·.2) := by
    rw [h.releases]
    exact List.mem_map_of_mem hr
  obtain ⟨⟨i, o⟩, he, ho⟩ := List.mem_map.1 hmem
  obtain rfl : o = some r := ho
  refine ⟨i, he, fun j hj => ?_⟩
  exact congrArg Prod.fst (List.inj_on_of_nodup_map hsome hj he rfl)

end Acquisition

theorem World.Receives.release?_eq_none {home : Option Index} (h : w.Receives k c home l fds w' c')
    (hnone : ∀ e ∈ l, e.2 = none) : ∀ e ∈ l, c'.tree.release? e.1 = none := by
  have hrecord : ∀ s, (∀ e ∈ Tree.recordsIn s l, c'.tree.nodes.get? e.1 = some e.2) →
      ∀ e ∈ l, c'.tree.release? e.1 = none := by
    intro s hs e he
    have hget := hs (e.1, .record s e.2) (List.mem_map_of_mem he)
    rw [hnone e he] at hget
    rw [Tree.release?, Tree.record?_eq_some_iff.2 hget]
    rfl
  cases h.tree with
  | current hg => exact hrecord _ hg.alive
  | inside hg => exact hrecord _ fun e he => hg.alive e (List.mem_cons_of_mem _ he)

theorem World.Receives.inert {home : Option Index} (h : w.Receives k c home l fds w' c')
    (hl : w'.ledger.Sound) (hnone : ∀ e ∈ l, e.2 = none) : ∀ e ∈ l, w'.Inert k e.1 :=
  fun e he => World.inert_of_release? hl h.context (h.release?_eq_none hnone e he)

/-- An attempt in the current scope. -/
theorem Run.Yields.ends {x : Acquisition α} {r : Except Stop α}
    (h : Run.Yields w k c x.count x.Gets (r, w')) (hl : r ≠ .error .abort → w'.ledger.Sound)
    (hx : x.isPrivate = false) (hscope : ∀ a, x.scope? a = none) : x.Ends k c w r w' := by
  cases h with
  | failed hnone hcount hs =>
    have hr := hs.receives
    exact .failed hr ⟨hnone, hs.current, .inl hx.symm, hcount⟩ (hr.inert (hl (by simp)) hnone)
  | @done a l fds w' c' hgets hs =>
    have hnodup := hs.opened.nodup
    have hr := hs.receives
    have hcompletes := hgets.completes hnodup hs.current (hscope a).symm
    rw [hgets.descriptors] at hr
    exact .acquired hr hcompletes

/-! ### A scope of its own -/

namespace Run

theorem turns_log (hc : w.context? k = some c) (e : Event) : w.Turns k c [] (w.record e) c :=
  World.turns_of_still (still_record w e) (ledger_record w e) hc

theorem exec_pushScope_turns (hc : w.context? k = some c) (hp : c.tree.push = (some p, t)) :
    ∃ w', (pushScope k).exec w = (.ok p, w') ∧ w.Turns k c [] w' { c with tree := t } := by
  obtain ⟨w₁, hexec, hturns⟩ := World.turns_onTree hc Tree.push
  rw [hp] at hexec hturns
  refine ⟨_, ?_, hturns.trans (turns_log hturns.context (.pushed p c.tree.current))⟩
  have hpush : (pushScope? k).exec w = (.ok (some p), w₁.record (.pushed p c.tree.current)) := by
    rw [pushScope?, exec_bind_ok (exec_view hc _), exec_bind_ok hexec]
    rfl
  rw [pushScope, exec_bind_ok hpush]
  rfl

theorem exec_popScope_turns (hc : w.context? k = some c) {q : Index}
    (hq : c.tree.parent? c.tree.current = some q) :
    ∃ w', (popScope k).exec w = (.ok c.tree.current, w') ∧
      w.Turns k c [] w' { c with tree := c.tree.pop } := by
  obtain ⟨w₁, hexec, hturns⟩ := World.turns_onTree hc fun t => ((), t.pop)
  refine ⟨_, ?_, hturns.trans (turns_log hturns.context (.popped c.tree.current q))⟩
  rw [popScope, exec_bind_ok (exec_view hc _), exec_bind_ok (exec_view hc _), hq]
  exact exec_bind_ok hexec

end Run

theorem Tree.Grown.congr (h : t.Grown t₁ direct added) (hn : t₂.nodes = t₁.nodes)
    (htop : t₂.top = t₁.top) : t.Grown t₂ direct added where
  top := htop.trans h.top
  nodup := h.nodup
  fresh := h.fresh
  alive := by rw [hn]; exact h.alive
  children := by rw [hn]; exact h.children
  other := by rw [hn]; exact h.other

/-- There is no room for a scope. -/
theorem Tree.full_of_push (hp : t.push.1 = none) : t.Full := by
  refine full_of_addChild (.scope (some t.current) []) ?_
  rcases ha : t.addChild (.scope (some t.current) []) with ⟨_ | i, u⟩
  · rfl
  · simp [push, ha] at hp

theorem Run.exec_pushScope_full {frame : Frame} (hc : w.context? k = some c)
    (hframe : c.frame = some frame) (hp : c.tree.push.1 = none) :
    ∃ f w', (pushScope k).exec w = (.error (.failure f), w') ∧ w.Turns k c [] w' c := by
  obtain ⟨f, w', hturns, hexec⟩ := (makes_failNoMemory k).exec_throwing hc hframe
  refine ⟨f, w', ?_, hturns⟩
  rw [pushScope, exec_bind_ok (exec_pushScope?_full hc hp)]
  exact hexec Index

/-- The scope that was begun first is left for the one that it was begun in. -/
theorem World.Receives.popped (h : w.Receives k c (some p) l fds w₁ c₁) (hcur : c₁.tree.current = p) :
    ∃ w₂, (Run.popScope k).exec w₁ = (.ok p, w₂) ∧
      w.Receives k c (some p) l fds w₂ { c₁ with tree := c₁.tree.pop } ∧
      c₁.tree.pop.current = c.tree.current := by
  cases h.tree with
  | inside hg =>
    have hparent : c₁.tree.parent? c₁.tree.current = some c.tree.current := by
      rw [hcur]
      exact Tree.parent?_of_get? (hg.alive _ (List.mem_cons_self ..))
    obtain ⟨w₂, hexec, hturns⟩ := Run.exec_popScope_turns h.context hparent
    rw [hcur] at hexec
    refine ⟨w₂, hexec, ⟨?_, .inside (hg.congr (Tree.nodes_pop _) (Tree.top_pop _))⟩, ?_⟩
    · have hturned := h.toTurns.trans hturns
      rwa [List.append_nil] at hturned
    · rw [Tree.current_pop, hparent]
      rfl

/-- An attempt in a scope that is begun for it, and left when it succeeds. -/
theorem ends_duplicateHandle {frame : Frame} {r : Except Stop (Handle Nat)} {fd : Int}
    (hl : r ≠ .error .abort → w'.ledger.Sound) (hc : w.context? k = some c)
    (hframe : c.frame = some frame) (hscope : c.tree.isScope c.tree.current = true)
    (hexec : (Run.duplicateHandle k fd).exec w = (r, w')) :
    (Acquisition.duplicateHandle fd).Ends k c w r w' := by
  rcases hp : c.tree.push with ⟨_ | p, t⟩
  · have hnone : c.tree.push.1 = none := congrArg Prod.fst hp
    obtain ⟨f, w₁, hpush, hturns⟩ := Run.exec_pushScope_full hc hframe hnone
    cases hexec.symm.trans (Run.exec_bind_error hpush)
    have hfull := Tree.full_of_push hnone
    have hr : w.Receives k c none [] [] w' c := ⟨hturns, .current (.refl hscope)⟩
    exact .failed hr ⟨by simp, rfl, .inr ⟨rfl, hfull⟩, .inr ⟨Nat.zero_lt_one, hfull⟩⟩ (by simp)
  obtain ⟨w₁, hpush, hturns⟩ := Run.exec_pushScope_turns hc hp
  have hcur : t.current = p := by
    rw [Tree.push] at hp
    split at hp <;> cases hp
    rfl
  have hself : t.isScope t.current = true := by
    rw [hcur]
    exact Tree.isScope_iff.2 ⟨_, _, Tree.get?_push hscope hp⟩
  have hexec := (Run.exec_bind_ok hpush).symm.trans hexec
  rcases hduplicate : (Run.duplicate k fd).exec w₁ with ⟨r₁, w₂⟩
  have hyields := Run.yields_duplicate (c := { c with tree := t }) hframe fd
    (World.Reserves.refl hturns.context hself)
  rw [hduplicate] at hyields
  cases hyields with
  | @failed f l _ c₂ hnone hcount hs =>
    cases hexec.symm.trans (Run.exec_bind_error hduplicate)
    have hr := hs.inside hturns hscope hp hcur
    exact .failed hr ⟨hnone, hs.current.trans hcur, .inl rfl, hcount⟩ (hr.inert (hl (by simp)) hnone)
  | @done copy l fds _ c₂ hgets hs =>
    obtain ⟨w₃, hpop, hr, hback⟩ :=
      (hs.inside hturns hscope hp hcur).popped (hs.current.trans hcur)
    have hexec := (Run.exec_bind_ok hduplicate).symm.trans hexec
    cases hexec.symm.trans (Run.exec_bind_ok hpop)
    have hgets : (Acquisition.duplicateHandle fd).Gets ⟨p, copy⟩ l fds :=
      ⟨hgets.releases, hgets.descriptors, by simp [Acquisition.record?]⟩
    have hcompletes := hgets.completes hs.opened.nodup hback (show some p = _ from rfl)
    rw [hgets.descriptors] at hr
    exact .acquired hr hcompletes

/-- What is acquired inside a protected call is acquired completely or not at all. -/
theorem acquires_all_or_nothing (x : Acquisition α) {frame : Frame} {r : Except Stop α}
    (hw : Reachable w) (hc : w.context? k = some c) (hframe : c.frame = some frame)
    (hexec : (x.run k).exec w = (r, w')) : x.Ends k c w r w' := by
  have hscope : c.tree.isScope c.tree.current = true := by
    obtain ⟨f, hf⟩ := hw.sound.shows k c.hold (World.hold_of_context? hc)
    exact hf.isScope_current
  have hl : r ≠ .error .abort → w'.ledger.Sound := by
    intro hr
    obtain ⟨steps, hsteps⟩ := x.composed k w r w' hexec hr
    exact hsteps.trail.sound hw.sound
  have hstart := World.Reserves.refl hc hscope
  -- all but one make their attempt in the current scope
  have hyields : x.isPrivate = false → (∀ a, x.scope? a = none) →
      Run.Yields w k c x.count x.Gets ((x.run k).exec w) → x.Ends k c w r w' := by
    intro hx hscope? h
    rw [hexec] at h
    exact h.ends hl hx hscope?
  cases x with
  | alloc size => exact hyields rfl (fun _ => rfl) (Run.yields_alloc hframe size hstart)
  | format f => exact hyields rfl (fun _ => rfl) (Run.yields_format hframe f hstart)
  | duplicateText text =>
    exact hyields rfl (fun _ => rfl) (Run.yields_duplicateText hframe text hstart)
  | openFile path flags mode =>
    exact hyields rfl (fun _ => rfl) (Run.yields_openFile hframe path flags mode hstart)
  | openPipe => exact hyields rfl (fun _ => rfl) (Run.yields_openPipe hframe hstart)
  | duplicate fd => exact hyields rfl (fun _ => rfl) (Run.yields_duplicate hframe fd hstart)
  | duplicateHandle fd => exact ends_duplicateHandle hl hc hframe hscope hexec

theorem reachable_inCall : Reachable .inCall := by
  obtain ⟨w, hexec⟩ := Run.exists_exec_eq
    (show ((Run.enterCall 0 .code).exec (leftScope.exec .start).2).1 =
      .ok (.ok ⟨⟨0, 0, 0⟩, ⟨0, 3, 0⟩, 1, none⟩) from rfl)
  obtain ⟨steps, hsteps⟩ := Run.composed_enterCall 0 .code _ _ _ hexec (by simp)
  have hw : World.inCall = w := congrArg Prod.snd hexec
  rw [hw]
  exact reachable_leftScope.performs hsteps (by simp)

/-- The theorem above for a descriptor that is not open, and for a pipe. -/
theorem acquires_all_or_nothing_inCall : ∃ c f w₁ w₂, World.inCall.context? 0 = some c ∧
    (Acquisition.duplicateHandle 7).Ends 0 c .inCall (.error (.failure f)) w₁ ∧
    Acquisition.openPipe.Ends 0 c .inCall (.ok (3, 4)) w₂ := by
  have hframe : (World.inCall.context? 0).map (·.frame) = some (some ⟨⟨0, 3, 0⟩, .code, 1⟩) := rfl
  obtain ⟨c, hc, hc'⟩ := Option.map_eq_some_iff.1 hframe
  have hfail : (((Acquisition.duplicateHandle 7).run 0).exec .inCall).1 =
      .error (.failure ⟨9, none, none, 1⟩) := by decide +kernel
  have hpipe : ((Acquisition.openPipe.run 0).exec .inCall).1 = .ok (3, 4) := by decide +kernel
  obtain ⟨w₁, h₁⟩ := Run.exists_exec_eq hfail
  obtain ⟨w₂, h₂⟩ := Run.exists_exec_eq hpipe
  exact ⟨c, _, w₁, w₂, hc, acquires_all_or_nothing _ reachable_inCall hc hc' h₁,
    acquires_all_or_nothing _ reachable_inCall hc hc' h₂⟩

end ScopedResources
