/-
  What outlives a protected call that fails.

  A call that fails tears its boundary down, and with it all that was registered
  within the boundary.  Nothing keeps a body from leaving the boundary: what it
  registers once it has popped it, or has gone elsewhere by a reset, lies beside
  the boundary and outlives the call.

  * `Step.Adds`: an operation registers a node; `Trail.added` finds the operation
    that registered a node.
  * `Trail.isWithin`: a scope stays within the scopes that it was within.
  * `survivors` says what outlives a call; `outlives_poppedBoundary` is a call that
    leaves a record behind.
-/
import ScopedResources.Proofs.ProtectedCall

namespace ScopedResources

/-- The node that a change registers. -/
def Change.added? : Change → Hold → Option Index
  | push, h | enter _, h => h.tree.push.1
  | reserve, h => h.tree.reserve.1
  | pop, _ | destroy _, _ | leave _, _ | commit _ _, _ | write _ _ _, _ | exit _ _, _ => none

/-- Whether an operation registers a node in a context, of which `h` is what the
    context owned before. -/
def Step.Adds (s : Step) (k : ContextId) (i : Index) (h : Hold) : Prop :=
  ∃ c, s.op = .change k c ∧ s.before.ledger.hold k = some h ∧ c.added? h = some i

variable {l l' : Ledger} {k : ContextId} {h h' : Hold} {i n : Index} {s : Step} {steps : List Step}
  {f : Forest Release}

/-! ## New nodes -/

namespace Tree

variable {t t' : Tree Release} {node : Node Release} {o : Index}

theorem isSome_addChild (hc : t.isScope t.current = true) (ha : t.addChild node = (some i, t'))
    (hn : n ≠ i) : (t'.nodes.get? n).isSome = (t.nodes.get? n).isSome := by
  obtain ⟨p, cs, hc⟩ := isScope_iff.1 hc
  obtain ⟨nodes, hI, -, rfl⟩ := addChild_some hc ha
  rw [Slots.isSome_get?_set, hI.other n hn]

/-- A push makes one node, the scope that it gives. -/
theorem push_of_isSome (hf : t.Shows f) (hn : t.nodes.get? n = none)
    (hn' : (t.push.2.nodes.get? n).isSome) :
    t.push.1 = some n ∧ t.push.2.nodes.get? n = some (.scope (some t.current) []) := by
  rcases hp : t.push with ⟨_ | i, u⟩
  · rw [hp, push_none hp, hn] at hn'; cases hn'
  · have hi := get?_push hf.isScope_current hp
    rcases ha : t.addChild (.scope (some t.current) []) with ⟨_ | j, v⟩
    · simp [Tree.push, ha] at hp
    · simp only [Tree.push, ha, Prod.mk.injEq, Option.some.injEq] at hp
      obtain ⟨rfl, rfl⟩ := hp
      by_cases hnj : n = j
      · subst hnj; exact ⟨rfl, hi⟩
      · rw [Tree.push, ha] at hn'
        rw [isSome_addChild hf.isScope_current ha hnj, hn] at hn'
        cases hn'

theorem reserve_of_isSome (hf : t.Shows f) (hn : t.nodes.get? n = none)
    (hn' : (t.reserve.2.nodes.get? n).isSome) :
    t.reserve.1 = some n ∧ t.reserve.2.nodes.get? n = some (.record t.current none) := by
  rcases hr : t.reserve with ⟨_ | i, u⟩
  · rw [hr, reserve_none hr, hn] at hn'; cases hn'
  · by_cases hni : n = i
    · subst hni; exact ⟨rfl, get?_addChild hf.isScope_current hr⟩
    · rw [hr, isSome_addChild hf.isScope_current hr hni, hn] at hn'
      cases hn'

/-- A teardown makes no node. -/
theorem isSome_of_destroy (hf : t.Shows f) (hn : ((t.destroy o).2.nodes.get? n).isSome) :
    (t.nodes.get? n).isSome := by
  rcases ho : t.isScope o with _ | _
  · rwa [destroy_of_not_scope ho] at hn
  · obtain ⟨g, hg⟩ := hf.exists_below? ho
    obtain ⟨t', w', removed, hrun, -, hT⟩ := hf.destroy hg
    rw [hrun] at hn
    by_cases hm : n ∈ t.tornBy o g
    · rw [hT.gone n hm] at hn; cases hn
    · have hrest := congrArg Option.isSome (hT.rest n hm)
      rwa [Option.isSome_map, Option.isSome_map, hn, eq_comm] at hrest

theorem isSome_of_commit {r : Release} (hn : ((t.commit o r).2.nodes.get? n).isSome) :
    (t.nodes.get? n).isSome := by
  by_cases ho : ∃ q old, t.nodes.get? o = some (.record q old)
  · obtain ⟨q, old, ho⟩ := ho
    rwa [commit_of_record ho, Slots.isSome_get?_set] at hn
  · rwa [commit_of_not_record fun q old h => ho ⟨q, old, h⟩] at hn

end Tree

/-- A node that is there after a change and was not there before is the one that the
    change registers, in the scope that was current. -/
theorem Change.added?_of_isSome (hf : h.tree.Shows f) {c : Change}
    (hn : h.tree.nodes.get? n = none) (hn' : ((c.apply h).tree.nodes.get? n).isSome) :
    c.added? h = some n ∧
      ∃ node, (c.apply h).tree.nodes.get? n = some node ∧ node.holder = some h.tree.current := by
  have hnot : ¬ (h.tree.nodes.get? n).isSome := by rw [hn]; simp
  cases c with
  | push =>
    obtain ⟨hi, hget⟩ := Tree.push_of_isSome hf hn hn'
    exact ⟨hi, _, hget, rfl⟩
  | reserve =>
    obtain ⟨hi, hget⟩ := Tree.reserve_of_isSome hf hn hn'
    exact ⟨hi, _, hget, rfl⟩
  | enter detail =>
    rcases hp : h.tree.push with ⟨_ | b, u⟩
    · rw [apply, hp] at hn'
      exact absurd hn' hnot
    · have htree : (Change.apply (.enter detail) h).tree = h.tree.push.2 := by
        rw [apply, hp]
      rw [htree] at hn' ⊢
      obtain ⟨hi, hget⟩ := Tree.push_of_isSome hf hn hn'
      exact ⟨hi, _, hget, rfl⟩
  | pop => exact absurd (by rwa [apply, Tree.nodes_pop] at hn') hnot
  | destroy o => exact absurd (Tree.isSome_of_destroy hf hn') hnot
  | leave o =>
    obtain ⟨hleaving, hnodes, -⟩ := shows_leaving hf o
    exact absurd (hnodes ▸ Tree.isSome_of_destroy hleaving hn') hnot
  | commit o r => exact absurd (Tree.isSome_of_commit hn') hnot
  | write o position byte =>
    rw [apply, Tree.write] at hn'
    split at hn'
    · exact absurd (Tree.isSome_of_commit hn') hnot
    · exact absurd hn' hnot
  | exit call how =>
    rcases how with _ | _ | _
    · exact absurd hn' hnot
    all_goals exact absurd (Tree.isSome_of_destroy (hf.enter call.resume) hn') hnot

/-- An operation after which there is a node that was not there before registers it. -/
theorem Step.adds_of_isSome (hl : s.before.ledger.Sound)
    (hstep : s.after.ledger = s.op.step s.before.ledger) (hk : s.before.ledger.hold k = some h)
    (hk' : s.after.ledger.hold k = some h') (hn : h.tree.nodes.get? n = none)
    (hn' : (h'.tree.nodes.get? n).isSome) : s.Adds k n h ∧
      ∃ node, h'.tree.nodes.get? n = some node ∧ node.holder = some h.tree.current := by
  obtain ⟨f, hf⟩ := hl.shows k h hk
  rw [hstep] at hk'
  rcases hold_step s.op hk' with ⟨-, hsame⟩ | ⟨x, c, hx, hop, rfl⟩ | ⟨program, -, hcount, -⟩
  · rw [hk] at hsame; cases hsame
    rw [hn] at hn'; cases hn'
  · rw [hk] at hx; cases hx
    obtain ⟨hadded, hnode⟩ := Change.added?_of_isSome hf hn hn'
    exact ⟨⟨c, hop, hk, hadded⟩, hnode⟩
  · exact absurd hcount (Nat.ne_of_lt (hl.lt k h hk))

/-- A node that is there in the end and was not there at the beginning was registered
    on the way. -/
theorem Trail.added (ht : Trail l steps l') (hl : l.Sound) (hk : l.hold k = some h)
    (hk' : l'.hold k = some h') (hn : h.tree.nodes.get? n = none)
    (hn' : (h'.tree.nodes.get? n).isSome) : ∃ pre s post x y, steps = pre ++ s :: post ∧
      s.Adds k n x ∧ s.after.ledger.hold k = some y ∧
        ∃ node, y.tree.nodes.get? n = some node ∧ node.holder = some x.tree.current := by
  induction ht generalizing h with
  | nil =>
    rw [hk] at hk'; cases hk'
    rw [hn] at hn'; cases hn'
  | @cons s steps l' hs ht ih =>
    obtain ⟨hl', y, hy, -⟩ := ht.hold_after hs hl hk hk'
    by_cases hyn : (y.tree.nodes.get? n).isSome
    · obtain ⟨hadds, hnode⟩ := Step.adds_of_isSome hl hs hk hy hn hyn
      exact ⟨[], s, steps, h, y, rfl, hadds, hy, hnode⟩
    · obtain ⟨pre, s', post, x, z, rfl, hadds, hz, hnode⟩ :=
        ih hl' hy hk' (Option.not_isSome_iff_eq_none.1 hyn)
      exact ⟨s :: pre, s', post, x, z, rfl, hadds, hz, hnode⟩

/-! ## Scopes around a scope -/

/-- A scope is within itself, and within the scopes that its parent is within. -/
theorem Tree.Shows.isWithin_iff_parent {t : Tree Release} (ht : t.Shows f) {o : Index}
    (hn : t.isScope n = true) : t.isWithin o n = true ↔
      n = o ∨ ∃ m, t.parent? n = some m ∧ t.isWithin o m = true := by
  obtain ⟨path, hpath, hlength, -⟩ := ht.climb (ht.mem_scopes_iff.2 hn)
  rw [isWithin, isWithinBounded_iff hpath (by omega)]
  cases hpath with
  | last hp =>
    simp only [hp, List.mem_singleton, reduceCtorEq, false_and, exists_false, or_false]
    exact eq_comm
  | @next _ m path hp hc =>
    rw [List.length_cons] at hlength
    simp only [hp, Option.some.injEq, exists_eq_left', isWithin, List.mem_cons,
      isWithinBounded_iff hc (show path.length ≤ t.size + 1 by omega)]
    exact or_congr_left eq_comm

/-- A scope that is still alive is within the scopes that it was within. -/
theorem Trail.isWithin (ht : Trail l steps l') (hl : l.Sound) (hk : l.hold k = some h)
    (hk' : l'.hold k = some h') (hv : ∀ m, vacations steps k m < 2 ^ 32) {o : Index}
    (hn : h.tree.isScope n = true) (hn' : h'.tree.isScope n = true)
    (hin : h.tree.isWithin o n = true) : h'.tree.isWithin o n = true := by
  obtain ⟨f, hf⟩ := hl.shows k h hk
  obtain ⟨f', hf'⟩ := (ht.sound hl).shows k h' hk'
  obtain ⟨path, hpath, -⟩ := hf.climb (hf.mem_scopes_iff.2 hn)
  -- the way up is the same as before
  induction hpath with
  | last hp =>
    rw [hf.isWithin_iff_parent hn, hp] at hin
    exact (hf'.isWithin_iff_parent hn').2 (.inl (hin.resolve_right (by simp)))
  | @next n m path hp hc ih =>
    obtain ⟨p, cs, hget⟩ := Tree.isScope_iff.1 hn
    rw [Tree.parent?_of_get? hget] at hp
    subst hp
    obtain ⟨cs', hget'⟩ := (isScope_iff_keeps ht hl hk hk' hget (hv n.slot)).2 hn'
    have hm := hf.mem_scopes_iff.1 (hf.parent_mem hget)
    have hm' := hf'.mem_scopes_iff.1 (hf'.parent_mem hget')
    rw [hf.isWithin_iff_parent hn, Tree.parent?_of_get? hget] at hin
    rw [hf'.isWithin_iff_parent hn', Tree.parent?_of_get? hget']
    refine hin.imp id ?_
    rintro ⟨_, ⟨⟩, hin⟩
    exact ⟨m, rfl, ih hm hm' hin⟩

/-! ## What a call leaves behind -/

variable {α : Type} {w w₁ w₂ w' : World} {c c₂ c' : Context} {detail : Detail}
  {call : ProtectedCall} {body : Run α} {e : Stop} {result : Except Stop (Except Report α)}

/-- A node whose holder is within a scope is below that scope. -/
theorem Tree.Shows.mem_below_of_holder {t : Tree Release} (ht : t.Shows f) {g : Forest Release}
    {o q : Index} (hg : f.below? o = some g) {node : Node Release}
    (hn : t.nodes.get? n = some node) (hq : node.holder = some q) (hin : t.isWithin o q = true) :
    n ∈ g.indices ++ [o] := by
  cases node with
  | record owner r =>
    cases hq
    exact List.mem_append_left _ ((ht.mem_below_iff hg hn).2 hin)
  | scope p cs =>
    cases hq
    have hscope : t.isScope n = true := Tree.isScope_iff.2 ⟨_, _, hn⟩
    have hno : t.isWithin o n = true :=
      (ht.isWithin_iff_parent hscope).2 (.inr ⟨q, Tree.parent?_of_get? hn, hin⟩)
    rcases (ht.isWithin_iff (ht.mem_scopes_iff.2 hscope)).1 hno with rfl | ⟨g', hg', hng⟩
    · simp
    · rw [hg] at hg'; cases hg'
      exact List.mem_append_left _ (Forest.mem_indices_of_mem_scopes hng)

/-- The holder of a node is a scope that is alive. -/
theorem Tree.Shows.isScope_holder {t : Tree Release} (ht : t.Shows f) {node : Node Release}
    {q : Index} (hn : t.nodes.get? n = some node) (hq : node.holder = some q) :
    t.isScope q = true := by
  cases node with
  | record owner r =>
    cases hq
    obtain ⟨g, hg, -⟩ := ht.owner_mem hn
    exact ht.mem_scopes_iff.1 (Forest.mem_scopes_of_below? hg)
  | scope p cs =>
    cases hq
    exact ht.mem_scopes_iff.1 (ht.parent_mem hn)

theorem Node.holder_eq_of_place {node node' : Node Release} (h : node'.place = node.place) :
    node'.holder = node.holder := by
  cases node <;> cases node' <;> cases h <;> rfl

/-- What is alive after a call that failed was alive when its body ended, and was not
    within the boundary. -/
theorem Ended.alive {ran ran' : List (Due Release)}
    (hend : Ended k call steps (Except.error e : Except Stop α) c c₂ c' ran ran')
    (hf : c₂.tree.Shows f)
    (hboundary : (c₂.tree.nodes.get? call.boundary).isSome ↔ ∀ s ∈ steps, s.Keeps k call.boundary)
    (hi : (c'.tree.nodes.get? i).isSome) : (c₂.tree.nodes.get? i).isSome ∧ i ≠ call.boundary ∧
      ∀ node q, c₂.tree.nodes.get? i = some node → node.holder = some q →
        ¬ c₂.tree.isWithin call.boundary q = true := by
  by_cases hkeeps : ∀ s ∈ steps, s.Keeps k call.boundary
  · obtain ⟨f', g, new, hf', hg, hget, -, -⟩ := hend.unwound e rfl hkeeps
    have hnot : i ∉ g.indices ++ [call.boundary] := by
      intro hm
      rw [hget, if_pos hm] at hi; cases hi
    rw [hget, if_neg hnot, Option.isSome_map] at hi
    refine ⟨hi, fun he => hnot (by rw [he]; simp), fun node q hn hq hin => ?_⟩
    exact hnot (hf'.mem_below_of_holder hg hn hq hin)
  · obtain ⟨-, hnodes⟩ := hend.spared e rfl hkeeps
    rw [hnodes] at hi
    have hgone : call.boundary ∉ f.indices := fun hm => hkeeps (hboundary.1 (hf.mem_iff.1 hm))
    refine ⟨hi, fun he => hkeeps (hboundary.1 (he ▸ hi)), fun node q hn hq hin => hgone ?_⟩
    rcases (hf.isWithin_iff (hf.mem_scopes_iff.2 (hf.isScope_holder hn hq))).1 hin with rfl | ⟨g, hg, -⟩
    · exact Forest.mem_indices_of_mem_scopes (hf.mem_scopes_iff.2 (hf.isScope_holder hn hq))
    · exact Forest.mem_indices_of_below? hg

/-- A node that was registered when the current scope was within the scope `o`, and is
    still alive, lies in a scope that is still within `o`. -/
theorem Trail.within_of_added (ht : Trail l steps l') (hl : l.Sound)
    (hk' : l'.hold k = some h') (hv : ∀ m, vacations steps k m < 2 ^ 32) {pre post : List Step}
    {x y : Hold} {node : Node Release} (hsplit : steps = pre ++ s :: post) (hadds : s.Adds k n x)
    (hy : s.after.ledger.hold k = some y) (hn : y.tree.nodes.get? n = some node)
    (hholder : node.holder = some x.tree.current) (hn' : (h'.tree.nodes.get? n).isSome) {o : Index}
    (hin : x.tree.isWithin o x.tree.current = true) :
    ∃ node', h'.tree.nodes.get? n = some node' ∧ node'.holder = some x.tree.current ∧
      h'.tree.isWithin o x.tree.current = true := by
  subst hsplit
  obtain ⟨c, -, hx, -⟩ := hadds
  obtain ⟨hpre, hstep, hpost⟩ := ht.split
  have hls := hpre.sound hl
  have hla : s.after.ledger.Sound := by rw [hstep]; exact hls.step s.op
  obtain ⟨fx, hfx⟩ := hls.shows k x hx
  have hfrom : Trail s.before.ledger (s :: post) l' := .cons hstep hpost
  obtain ⟨f', hf'⟩ := (hfrom.sound hls).shows k h' hk'
  have hvs : ∀ m, vacations (s :: post) k m < 2 ^ 32 := fun m => by
    have := hv m
    rw [vacations_append] at this
    omega
  have hvp : vacations post k n.slot < 2 ^ 32 := by
    have := hvs n.slot
    rw [vacations_cons] at this
    omega
  obtain ⟨⟨node', hget, hplace⟩, -⟩ := alive_trail hpost hla hy hk' hn hn' hvp
  have hholder' := (Node.holder_eq_of_place hplace).trans hholder
  exact ⟨node', hget, hholder', hfrom.isWithin hls hx hk' hvs hfx.isScope_current
    (hf'.isScope_holder hget hholder') hin⟩

/-- What is alive after a call that failed or panicked was alive before it, or it was
    registered when the current scope was not within the boundary. -/
theorem survivors (hw : Reachable w) (hc : w.context? k = some c)
    (henter : (Run.enterCall k detail).exec w = (.ok (.ok call), w₁))
    (hbody : Performs body w₁ steps (.error e) w₂) (hv : ∀ n, vacations steps k n < 2 ^ 32)
    (hexit : (Run.protect k detail body).exec w = (result, w')) (hresult : result ≠ .error .abort)
    (hc' : w'.context? k = some c') (hi : (c'.tree.nodes.get? i).isSome) :
    (c.tree.nodes.get? i).isSome ∨
      ∃ s ∈ steps, ∃ h, s.Adds k i h ∧ ¬ h.tree.isWithin call.boundary h.tree.current = true := by
  obtain ⟨how, hhow, hstep⟩ := Run.exec_protect henter hbody.exec_eq hexit hresult
  have hl₁ := Run.step_of_change (.enter detail) rfl henter (by simp)
  obtain ⟨hboundary, -⟩ := Run.exec_enterCall_ok hc henter
  have hk : w.ledger.hold k = some c.hold := World.hold_of_context? hc
  have hsound₁ : w₁.ledger.Sound := by rw [hl₁]; exact hw.sound.step _
  have hlt : k < w₂.ledger.count :=
    Nat.lt_of_lt_of_le (hw.sound.lt k _ hk) ((hl₁ ▸ count_step _).trans hbody.trail.count_le)
  obtain ⟨c₂, hc₂⟩ := (Trail.one hstep).context? hlt hc'
  have hk₂ : w₂.ledger.hold k = some c₂.hold := World.hold_of_context? hc₂
  obtain ⟨f, hf⟩ := (hbody.trail.sound hsound₁).shows k _ hk₂
  have hent := entered hw hc henter
  obtain ⟨h₁, hk₁, -, hb₁, -⟩ := hent.hold
  have hend := hent.ended hsound₁ hbody.trail hv hc₂ hc' hhow hstep
  obtain ⟨hi₂, hne, houtside⟩ := hend.alive hf
    (alive_iff_keeps hbody.trail hsound₁ hk₁ hk₂ hb₁ (hv _)) hi
  by_contra hnot
  rw [not_or, Option.not_isSome_iff_eq_none] at hnot
  -- the boundary is the only node that entering the call has made
  have hi₁ : h₁.tree.nodes.get? i = none := by
    by_contra hi₁
    obtain ⟨⟨d, hd, hx, hadded⟩, -⟩ := Step.adds_of_isSome (s := ⟨w, .change k (.enter detail), w₁⟩)
      hw.sound hl₁ hk hk₁ hnot.1 (Option.isSome_iff_ne_none.2 hi₁)
    cases hd
    exact hne (Option.some.inj (hadded.symm.trans hboundary))
  obtain ⟨pre, s, post, x, y, hsplit, hadds, hy, node, hn, hholder⟩ :=
    hbody.trail.added hsound₁ hk₁ hk₂ hi₁ hi₂
  refine hnot.2 ⟨s, by rw [hsplit]; simp, x, hadds, fun hin => ?_⟩
  obtain ⟨node', hn', hholder', hin'⟩ := hbody.trail.within_of_added hsound₁ hk₂ hv hsplit hadds hy hn
    hholder hi₂ hin
  exact houtside node' _ hn' hholder' hin'

/-- A body that leaves the boundary of its call, defers a release and fails. -/
def poppedBoundary : Run Unit := do
  let _ ← Run.popScope 0
  Run.defer 0 (.note "release" false)
  Run.throwing (Run.fail 0 Errno.invalidArgument (.literal "stop"))

/-- A world with one context, which owns nothing. -/
def World.single : World :=
  ((Run.newContext "example").exec .start).2

theorem reachable_single : Reachable .single :=
  ⟨_, Run.newContext "example", _, _, _, _, _, .of_ok (.newContext "example") rfl rfl, by simp⟩

/-- A call that failed, and left a record alive that was registered in its body. -/
theorem outlives_poppedBoundary : ∃ w w' c c' report i, Reachable w ∧ w.context? 0 = some c ∧
    (Run.protect 0 .code poppedBoundary).exec w = (.ok (.error report), w') ∧
      w'.context? 0 = some c' ∧ c.tree.nodes.get? i = none ∧ (c'.tree.nodes.get? i).isSome := by
  have hresult : ((Run.protect 0 .code poppedBoundary).exec .single).1 =
      .ok (.error ⟨22, none, none⟩) := by decide +kernel
  obtain ⟨w', hexec⟩ := Run.exists_exec_eq hresult
  have hlive : (((Run.protect 0 .code poppedBoundary).exec .single).2.context? 0).map
      (fun c' => (c'.tree.nodes.get? ⟨0, 2, 0⟩).isSome) = some true := by decide +kernel
  rw [hexec] at hlive
  obtain ⟨c', hc', hi⟩ := Option.map_eq_some_iff.1 hlive
  exact ⟨.single, w', _, c', _, ⟨0, 2, 0⟩, reachable_single, rfl, hexec, hc', rfl, hi⟩

/-- The theorem above for that record. -/
theorem survivors_poppedBoundary : ∃ (s : Step) (h : Hold), s.Adds 0 ⟨0, 2, 0⟩ h ∧
    ¬ h.tree.isWithin ⟨0, 1, 0⟩ h.tree.current = true := by
  obtain ⟨w₁, hw₁⟩ : ∃ w₁, w₁ = ((Run.enterCall 0 .code).exec .single).2 := ⟨_, rfl⟩
  have hcall : ((Run.enterCall 0 .code).exec .single).1 =
      .ok (.ok ⟨⟨0, 0, 0⟩, ⟨0, 1, 0⟩, 1, none⟩) := rfl
  have henter : (Run.enterCall 0 .code).exec .single = (.ok (.ok ⟨⟨0, 0, 0⟩, ⟨0, 1, 0⟩, 1, none⟩), w₁) :=
    Prod.ext hcall hw₁.symm
  have hpop : ((Run.popScope 0).exec w₁).1 = .ok ⟨0, 1, 0⟩ := by rw [hw₁]; decide +kernel
  have hreserve : ((Run.reserve 0).exec ((Run.popScope 0).exec w₁).2).1 = .ok ⟨0, 2, 0⟩ := by
    rw [hw₁]; decide +kernel
  obtain ⟨steps, e, w₂, hbody, hlength⟩ : ∃ steps e w₂,
      Performs poppedBoundary w₁ steps (.error e) w₂ ∧ steps.length = 3 := by
    subst hw₁
    exact ⟨_, _, _, .bind (.of_ok (.change 0 .pop) rfl hpop) (.bind
      (.bind (.of_ok (.change 0 .reserve) rfl hreserve)
        (.of_ok (.change 0 (.commit ⟨0, 2, 0⟩ (.note "release" false))) rfl rfl))
      (.aside rfl rfl)), rfl⟩
  have hresult : ((Run.protect 0 .code poppedBoundary).exec .single).1 ≠ .error .abort := by
    decide +kernel
  have hlive : (((Run.protect 0 .code poppedBoundary).exec .single).2.context? 0).map
      (fun c' => (c'.tree.nodes.get? ⟨0, 2, 0⟩).isSome) = some true := by decide +kernel
  obtain ⟨c', hc', hi⟩ := Option.map_eq_some_iff.1 hlive
  have hv : ∀ n, vacations steps 0 n < 2 ^ 32 := fun n =>
    Nat.lt_of_le_of_lt (vacations_le steps 0 n) (by rw [hlength]; decide)
  rcases survivors reachable_single rfl henter hbody hv (Prod.eta _).symm hresult hc' hi with h | h
  · cases h
  · obtain ⟨s, -, h, hadds, hout⟩ := h
    exact ⟨s, h, hadds, hout⟩

end ScopedResources
