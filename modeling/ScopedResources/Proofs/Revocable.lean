/-
  What a structured run has done can be undone.

  A region that a structured run starts in is there when it stops, wherever it stops:
  what is old in it is as it was, and what a teardown of it makes due takes back all
  else.  Scopes that are left on the way, and calls that end, are regions inside of it,
  torn down in one step.

  * `Revocable` is the invariant; `Revocable.step` keeps it by one change.
  * `Carries`: what a run does, seen from every region that it goes on in.
    `carries_gain`, `carries_allowed` and `carries_rename` are the steps of a run,
    `carries_nested` is about a scope that is begun and left.
  * `Structured.carries` is the induction over a run.
-/
import ScopedResources.Proofs.Pending

namespace ScopedResources

variable {α : Type} {k : ContextId} {w₀ w w₁ w₂ w' : World} {c₀ c c' : Context}
  {old old' : Index → Prop} {q b s : Index} {f g : Forest Release} {pre steps more : List Step}
  {held held' held₁ gained : List Release} {due due' : List (Due Release)} {change : Change}
  {i : Index} {l l' : Ledger} {h : Hold}

/-! ## Records of a run's own -/

theorem Uncommitted.mem_issued (hu : Uncommitted pre k i) : i ∈ issued pre k := by
  obtain ⟨before, s, after, rfl, hs, -⟩ := hu
  exact List.mem_filterMap.2 ⟨s, List.mem_append_right _ (List.mem_cons_self ..), hs⟩

/-- A record that was not committed has no release. -/
theorem Uncommitted.release? (hu : Uncommitted pre k i) (ht : Trail l pre l') (hl : l.Sound)
    (hk : l'.hold k = some h) : h.tree.release? i = none := by
  obtain ⟨before, s, after, rfl, hs, hafter⟩ := hu
  obtain ⟨hbefore, hstep, hthen⟩ := ht.split
  have hl₁ := hbefore.sound hl
  obtain ⟨x, y, hx, hy, -, hi⟩ := Step.reserved?_spec hs hstep hl₁
  rw [Option.eq_none_iff_forall_ne_some]
  intro r hr
  rcases hthen.committed (by rw [hstep]; exact hl₁.step _) hk hr with
    ⟨z, r₀, hz, hr₀, -⟩ | ⟨s', hs', r₀, hop, -⟩
  · rw [hy] at hz
    cases hz
    obtain ⟨o, ho⟩ := Tree.release?_eq_some_iff.1 hr₀
    rw [hi] at ho
    cases ho
  · exact hafter s' hs' r₀ hop

/-! ## What a run may undo -/

/-- What a run has done in a context since the world `w₀`, by the steps `pre`, can be
    undone: what is old is as it was, and for all that is new there is a release. -/
structure Revocable (k : ContextId) (w₀ : World) (c₀ : Context) (old : Index → Prop)
    (pre : List Step) (held : List Release) (w : World) (c : Context) (due : List (Due Release)) :
    Prop where
  sound : w₀.ledger.Sound
  trail : Trail w₀.ledger pre w.ledger
  /-- The run has reserved nothing that is old. -/
  own : ∀ i ∈ issued pre k, ¬ old i
  kept : ∀ i, old i → c.tree.nodes.get? i = c₀.tree.nodes.get? i
  kind : ∀ r ∈ held, r.name? = none
  pending : Pending k w₀ pre held w due

/-- What a run does in a context, as it is seen from a scope around it: there is a region
    before and after it, what it does can be undone, and the name of the program is the
    one that is put back in the end. -/
def Carries (k : ContextId) (pre : List Step) (held : List Release) (w : World) (steps : List Step)
    (w' : World) (held' : List Release) : Prop :=
  ∀ (c c' : Context) (old : Index → Prop) (q b : Index) (f g : Forest Release),
    w.context? k = some c → w'.context? k = some c' → c.tree.Region old q b f g →
    ∃ f' g', c'.tree.Region old q b f' g' ∧
      ∀ w₀ c₀, Revocable k w₀ c₀ old pre held w c g.due →
        Revocable k w₀ c₀ old (pre ++ steps) held' w' c' g'.due ∧
          (restored g'.due).getLastD c'.program = (restored g.due).getLastD c.program

theorem Carries.trans (h : Carries k pre held w steps w₁ held₁)
    (h' : Carries k (pre ++ steps) held₁ w₁ more w' held')
    (hmid : ∀ c c', w.context? k = some c → w'.context? k = some c' → ∃ c₁, w₁.context? k = some c₁) :
    Carries k pre held w (steps ++ more) w' held' := by
  intro c c' old q b f g hc hc' hR
  obtain ⟨c₁, hc₁⟩ := hmid c c' hc hc'
  obtain ⟨f₁, g₁, hR₁, hrev⟩ := h c c₁ old q b f g hc hc₁ hR
  obtain ⟨f', g', hR', hrev'⟩ := h' c₁ c' old q b f₁ g₁ hc₁ hc' hR₁
  refine ⟨f', g', hR', fun w₀ c₀ hrevocable => ?_⟩
  obtain ⟨hr₁, hn₁⟩ := hrev w₀ c₀ hrevocable
  obtain ⟨hr', hn'⟩ := hrev' w₀ c₀ hr₁
  rw [List.append_assoc] at hr'
  exact ⟨hr', hn'.trans hn₁⟩

/-! ### One change -/

/-- A run that makes a change and has another result. -/
theorem Run.exec_change {x : Run α} {r : Except Stop α} (change : Change)
    (hrun : discard x = change.run k) (hexec : x.exec w = (r, w')) (hr : r ≠ .error .abort) :
    ∃ res, (change.run k).exec w = (res, w') ∧ res ≠ .error .abort := by
  refine ⟨r.map fun _ => (), by rw [← hrun, exec_discard, hexec], ?_⟩
  rcases r with e | a
  · intro h
    cases h
    exact hr rfl
  · simp [Except.map]

/-- A change keeps all that can be undone, if the releases that are due are counted
    right. -/
theorem Revocable.step (h : Revocable k w₀ c₀ old pre held w c due) (hc : w.context? k = some c)
    (hc' : w'.context? k = some c') {res : Except Stop Unit}
    (hexec : (change.run k).exec w = (res, w')) (hres : res ≠ .error .abort)
    (hnew : ∀ i, change.reserved? c.hold = some i → ¬ old i)
    (hkept : ∀ i, old i → c'.tree.nodes.get? i = c.tree.nodes.get? i)
    (hcount : Counts due due' change.given (change.due c.hold)) (hheld : change.Settles held held') :
    Revocable k w₀ c₀ old (pre ++ [⟨w, .change k change, w'⟩]) held' w' c' due' where
  sound := h.sound
  trail := h.trail.append (.one (change.ledger_step hexec hres))
  own i hi := by
    rw [issued, List.filterMap_append, List.mem_append] at hi
    rcases hi with hi | hi
    · exact h.own i hi
    · refine hnew i ?_
      obtain ⟨s, hs, hres⟩ := List.mem_filterMap.1 hi
      rw [List.mem_singleton.1 hs, Step.reserved?_of_change rfl (World.hold_of_context? hc)] at hres
      exact hres
  kept i hi := (hkept i hi).trans (h.kept i hi)
  kind r hr := h.kind r (hheld.subset hr)
  pending := h.pending.step (change.advances (h.trail.sound h.sound) hc hc' hexec hres) hcount hheld

/-- The name that is put back in the end stays the same, if what is due is restored in
    the same order. -/
theorem name_step (hc : w.context? k = some c) (hc' : w'.context? k = some c')
    {res : Except Stop Unit} (hexec : (change.run k).exec w = (res, w')) (hres : res ≠ .error .abort)
    (hnames : restored due = restored (change.due c.hold) ++ restored due') :
    (restored due').getLastD c'.program = (restored due).getLastD c.program := by
  obtain ⟨new, hnew⟩ := change.released hc hexec hres
  obtain ⟨c₁, hc₁, hp⟩ := hnew.program k c' hc'
  rw [hc] at hc₁
  cases hc₁
  rw [hp, if_pos rfl, hnames, getLastD_append]

/-- A new record is not old. -/
theorem Tree.Region.not_old_of_reserved (hR : c.tree.Region old q b f g)
    (hi : change.reserved? c.hold = some i) : ¬ old i := by
  intro hold
  cases change with
  | reserve =>
    have hreserve : c.tree.reserve = (some i, c.tree.reserve.2) := Prod.ext hi rfl
    exact (hR.reserve hreserve).2.1 ((hR.outside i).1 hold).1
  | _ => cases hi

/-- Every change that goes on inside of a region, in a structured way. -/
theorem Tree.Region.carries (hR : c.tree.Region old q b f g) (hin : change.Inside c.tree b g)
    (hc : w.context? k = some c) (hc' : w'.context? k = some c')
    {res : Except Stop Unit} (hexec : (change.run k).exec w = (res, w')) (hres : res ≠ .error .abort)
    (hown : ∀ w₀ c₀, Revocable k w₀ c₀ old pre held w c g.due → change.Own c.tree old)
    (hheld : change.Settles held held') :
    ∃ f' g', c'.tree.Region old q b f' g' ∧
      ∀ w₀ c₀, Revocable k w₀ c₀ old pre held w c g.due →
        Revocable k w₀ c₀ old (pre ++ [⟨w, .change k change, w'⟩]) held' w' c' g'.due ∧
          (restored g'.due).getLastD c'.program = (restored g.due).getLastD c.program := by
  obtain ⟨hhold, -⟩ := hold_change hc hc' (change.ledger_step hexec hres)
  obtain ⟨f', g', hchanged⟩ := Tree.Region.change (h := c.hold) hR hin
  rw [← hhold] at hchanged
  refine ⟨f', g', hchanged.region, fun w₀ c₀ h => ?_⟩
  have hshift := hchanged.shift (hown w₀ c₀ h)
  exact ⟨h.step hc hc' hexec hres (fun i => hR.not_old_of_reserved) (hchanged.kept (hown w₀ c₀ h))
    hshift.count hheld, name_step hc hc' hexec hres hshift.names⟩

theorem context_of_gains (hg : w.Gains w' gained) (hc : w.context? k = some c)
    (hc' : w'.context? k = some c') : c'.hold = c.hold ∧ c'.program = c.program := by
  have hhold : w'.ledger.hold k = w.ledger.hold k := by rw [hg.ledger]
  rw [World.hold_of_context? hc, World.hold_of_context? hc'] at hhold
  have hprogram := hg.program k
  rw [hc, hc'] at hprogram
  exact ⟨Option.some.inj hhold, Option.some.inj hprogram⟩

theorem carries_gain (hg : w.Gains w' gained) : Carries k pre held w [] w' (gained ++ held) := by
  intro c c' old q b f g hc hc' hR
  obtain ⟨hhold, hprogram⟩ := context_of_gains hg hc hc'
  have htree : c'.tree = c.tree := congrArg Hold.tree hhold
  refine ⟨f, g, htree ▸ hR, fun w₀ c₀ h => ⟨⟨h.sound, ?_, ?_, ?_, ?_, ?_⟩, by rw [hprogram]⟩⟩
  · rw [List.append_nil, hg.ledger]
    exact h.trail
  · rw [List.append_nil]
    exact h.own
  · rw [htree]
    exact h.kept
  · intro r hr
    rcases List.mem_append.1 hr with hr | hr
    · rcases hg.kind r hr with ⟨fd, rfl⟩ | ⟨lock, rfl⟩ <;> rfl
    · exact h.kind r hr
  · rw [List.append_nil]
    exact h.pending.gain hg

theorem Release.Plain.name? {r : Release} (hr : r.Plain) : r.name? = none := by
  cases r <;> first | rfl | exact hr.elim

theorem Change.Allowed.settles (h : change.Allowed k pre held held') : change.Settles held held' := by
  cases h with
  | push | reserve | write => exact .inl ⟨rfl, by simp [given]⟩
  | @plain held i r hu hr =>
    refine .inl ⟨rfl, fun d hd lock hlock => ?_⟩
    rw [List.mem_singleton.1 hd] at hlock
    exact (hlock ▸ hr : (Release.leaveLock lock).Plain).elim
  | @settle held i r hu => exact .inr ⟨i, r, rfl, rfl⟩

theorem Change.Allowed.inside (h : change.Allowed k pre held held') (t : Tree Release) :
    change.Inside t b g := by
  cases h <;> trivial

/-- A structured run gives releases and bytes to records that are not old. -/
theorem Change.Allowed.own (ha : change.Allowed k pre held held')
    (h : Revocable k w₀ c₀ old pre held w c due) (hc : w.context? k = some c) :
    change.Own c.tree old := by
  have hfree : ∀ i, Uncommitted pre k i → ¬ old i ∧ c.tree.release? i = none := fun i hu =>
    ⟨h.own i hu.mem_issued, hu.release? h.trail h.sound (World.hold_of_context? hc)⟩
  cases ha with
  | push | reserve => trivial
  | write hi => exact h.own _ hi
  | plain hu hr => exact ⟨(hfree _ hu).1, (hfree _ hu).2, hr.name?⟩
  | settle hu => exact ⟨(hfree _ hu).1, (hfree _ hu).2, h.kind _ (List.mem_cons_self ..)⟩

theorem carries_allowed (ha : change.Allowed k pre held held') {res : Except Stop Unit}
    (hexec : (change.run k).exec w = (res, w')) (hres : res ≠ .error .abort) :
    Carries k pre held w [⟨w, .change k change, w'⟩] w' held' :=
  fun c _ _ _ _ _ _ hc hc' hR => hR.carries (ha.inside c.tree) hc hc' hexec hres
    (fun _ _ h => ha.own h hc) ha.settles

/-! ### The name of the program -/

/-- What a region is after a record was reserved in it, and given a release. -/
theorem Tree.Region.reserved_commit {t u : Tree Release} (hR : t.Region old q b f g)
    (hr : t.reserve = (some i, u)) (r : Release) : ∃ f' g', (u.commit i r).2.Region old q b f' g' ∧
      g'.due = ⟨i, r⟩ :: g.due ∧ (∀ j, old j → u.nodes.get? j = t.nodes.get? j) ∧
        (∀ j, old j → (u.commit i r).2.nodes.get? j = u.nodes.get? j) ∧ (u.commit i r).1 = true := by
  obtain ⟨hR₁, hi, hold⟩ := hR.reserve hr
  have hfree : ¬ old i := fun ho => hi ((hR.outside i).1 ho).1
  have hrecord : u.nodes.get? i = some (.record t.current none) :=
    Tree.get?_addChild hR.shows.isScope_current hr
  refine ⟨_, _, hR₁.attach r hrecord, hR.due_newest hi r, hold, Tree.Region.kept_commit r hfree, ?_⟩
  rw [Tree.commit_of_record hrecord]

/-- The name that was replaced is the first one to be put back. -/
theorem carries_rename {name : String} {i : Index} {c₁ : Context}
    (hreserve : (Run.reserve k).exec w = (.ok i, w₁)) (hc₁ : w₁.context? k = some c₁)
    (hname : (Run.onContext k fun c => ((), { c with program := name })).exec w₁ = (.ok (), w₂))
    (hcommit : (Run.commit k i (.restoreName c₁.program)).exec w₂ = (.ok (), w')) :
    Carries k pre held w
      [⟨w, .change k .reserve, w₁⟩, ⟨w₂, .change k (.commit i (.restoreName c₁.program)), w'⟩] w' held := by
  intro c c' old q b f g hc hc' hR
  obtain ⟨hledger, hhost, hlocks, hcontext⟩ := Run.exec_renamed hname
  have hc₂ : w₂.context? k = some { c₁ with program := name } := by
    rw [hcontext, if_pos rfl, hc₁]
    rfl
  obtain ⟨res, hexec, hres⟩ := Run.exec_change .reserve rfl hreserve (by simp)
  obtain ⟨res', hexec', hres'⟩ := Run.exec_change (.commit i (.restoreName c₁.program)) rfl hcommit (by simp)
  have hprogram : c₁.program = c.program := by
    have hcalm := (Run.calm_reserve k w).program k
    rw [hreserve, hc, hc₁] at hcalm
    exact Option.some.inj hcalm
  -- the new record, and what it is given
  obtain ⟨hhold, -⟩ := hold_change hc hc₁ (Change.ledger_step .reserve hexec hres)
  have hnew : c.tree.reserve = (some i, c₁.tree) :=
    Prod.ext (Run.exec_reserve_ok hc hreserve) (congrArg Hold.tree hhold).symm
  obtain ⟨f', g', hR', hdue, hold, hkept, hdone⟩ := hR.reserved_commit hnew (.restoreName c₁.program)
  obtain ⟨hhold', -⟩ := hold_change hc₂ hc' (Change.ledger_step _ hexec' hres')
  have htree : c'.tree = (c₁.tree.commit i (.restoreName c₁.program)).2 := congrArg Hold.tree hhold'
  rw [← htree] at hR' hkept
  refine ⟨f', g', hR', fun w₀ c₀ h => ?_⟩
  rw [hdue]
  have hreserved : Revocable k w₀ c₀ old (pre ++ [⟨w, .change k .reserve, w₁⟩]) held w₁ c₁ g.due :=
    h.step hc hc₁ hexec hres (fun i => hR.not_old_of_reserved) hold (fun _ _ => Nat.add_comm _ _)
      (.inl ⟨rfl, by simp [Change.given]⟩)
  have hrenamed : Revocable k w₀ c₀ old (pre ++ [⟨w, .change k .reserve, w₁⟩]) held w₂
      { c₁ with program := name } g.due :=
    ⟨hreserved.sound, hledger ▸ hreserved.trail, hreserved.own, hreserved.kept, hreserved.kind,
      hreserved.pending.congr hledger hhost hlocks⟩
  have hcounts : Counts g.due (⟨i, .restoreName c₁.program⟩ :: g.due)
      (Change.given (.commit i (.restoreName c₁.program)))
      (Change.due (.commit i (.restoreName c₁.program)) c₁.hold) := by
    intro r _
    rw [Change.due, Change.given, Context.hold, hdone, if_pos rfl, List.countP_nil, Nat.zero_add,
      List.countP_cons, List.countP_singleton]
  have hcommitted := hrenamed.step hc₂ hc' hexec' hres' (by simp [Change.reserved?]) hkept hcounts
    (.inl ⟨rfl, by simp [Change.given]⟩)
  rw [List.append_assoc] at hcommitted
  exact ⟨hcommitted, by rw [← hprogram]; exact List.getLastD_cons⟩

/-! ### Scopes that are begun and left -/

/-- The changes that begin a scope. -/
def Change.Begins : Change → Prop
  | push | enter _ => True
  | pop | destroy _ | leave _ | reserve | commit _ _ | write _ _ _ | exit _ _ => False

/-- The changes by which a run goes back from the scope `s` to the scope `q` around it,
    from wherever in it. -/
def Change.Closes (s q : Index) : Change → Prop
  | leave s' => s' = s
  | exit call _ => call.boundary = s ∧ call.resume = q
  | pop => True
  | push | destroy _ | reserve | commit _ _ | write _ _ _ | enter _ => False

theorem Change.Begins.tree (h : change.Begins) (x : Hold) : (change.apply x).tree = x.tree.push.2 := by
  cases change with
  | push => rfl
  | enter detail =>
    rcases hp : x.tree.push with ⟨_ | s, t⟩
    · rw [apply, hp]
      exact (Tree.push_none hp).symm
    · rw [apply, hp]
  | _ => exact h.elim

theorem Change.Begins.inside (h : change.Begins) (t : Tree Release) : change.Inside t b g := by
  cases change <;> trivial

/-- The changes that give no release and no byte to a record. -/
def Change.Gives : Change → Prop
  | commit _ _ | write _ _ _ => True
  | push | pop | destroy _ | leave _ | reserve | enter _ | exit _ _ => False

theorem Change.own_of_not_gives (h : ¬ change.Gives) (t : Tree Release) : change.Own t old := by
  cases change <;> first | trivial | exact (h trivial).elim

theorem Change.settles_of_not_gives (h : ¬ change.Gives) : change.Settles held held := by
  refine .inl ⟨rfl, fun d hd => ?_⟩
  cases change with
  | commit i r => exact (h trivial).elim
  | _ => cases hd

theorem Change.Begins.not_gives (h : change.Begins) : ¬ change.Gives := by
  cases change <;> first | exact id | exact h.elim

theorem Change.Closes.not_gives {p : Index} (h : change.Closes s p) : ¬ change.Gives := by
  cases change <;> first | exact id | exact h.elim

/-- A region inside of another one is left for the scope around it. -/
theorem Change.Closes.inside {t : Tree Release} {x y : Forest Release} {p : Index}
    (h : change.Closes s p) (hR : t.Region old q b f g) (hin : t.Region old' p s x y) (hs : ¬ old s)
    (hb : old' b) : change.Inside t b g := by
  obtain ⟨hspine, hne⟩ := hR.nested hin hs hb
  cases change with
  | leave s' =>
    cases h
    exact ⟨hspine, hne⟩
  | exit call how =>
    obtain ⟨rfl, rfl⟩ := h
    exact ⟨hspine, hne, hin.parent⟩
  | pop =>
    intro hcur
    refine hin.notMem hb ?_
    rw [← hcur]
    exact hin.spine.mem_indices
  | _ => exact h.elim

theorem carries_nested {first last : Change} {res res' : Except Stop Unit} (hbegins : first.Begins)
    (hfirst : (first.run k).exec w = (res, w₁)) (hres : res ≠ .error .abort)
    (hs : ∀ c, w.context? k = some c → c.tree.push.1 = some s ∧ last.Closes s c.tree.current)
    (ht : Trail w₁.ledger steps w₂.ledger)
    (hbody : Carries k (pre ++ [⟨w, .change k first, w₁⟩]) held w₁ steps w₂ held')
    (hlast : (last.run k).exec w₂ = (res', w')) (hres' : res' ≠ .error .abort) :
    Carries k pre held w (⟨w, .change k first, w₁⟩ :: (steps ++ [⟨w₂, .change k last, w'⟩])) w' held' := by
  intro c c' old q b f g hc hc' hR
  obtain ⟨hpushed, hcloses⟩ := hs c hc
  have hstep := first.ledger_step hfirst hres
  have hstep' := last.ledger_step hlast hres'
  have hk : k < w.ledger.count := Run.lt_size_of_context? hc
  have hk₁ : k < w₁.ledger.count := by
    rw [hstep]
    exact Nat.lt_of_lt_of_le hk (count_step _)
  obtain ⟨c₂, hc₂⟩ := (Trail.one hstep').context? (Nat.lt_of_lt_of_le hk₁ ht.count_le) hc'
  obtain ⟨c₁, hc₁⟩ := ht.context? hk₁ hc₂
  -- the new scope lies in the region, and is a region itself
  obtain ⟨hhold, -⟩ := hold_change hc hc₁ hstep
  have hpush : c.tree.push = (some s, c₁.tree) :=
    Prod.ext hpushed ((hbegins.tree c.hold).symm.trans (congrArg Hold.tree hhold).symm)
  obtain ⟨x₁, hin₁⟩ := hR.shows.region_push hpush
  have hsnew : ¬ old s := fun ho => (hR.push hpush).2.1 ((hR.outside s).1 ho).1
  have hbegun : Carries k pre held w [⟨w, .change k first, w₁⟩] w₁ held :=
    fun c _ _ _ _ _ _ hc hc' hR => hR.carries (hbegins.inside c.tree) hc hc' hfirst hres
      (fun _ _ _ => Change.own_of_not_gives hbegins.not_gives _)
      (Change.settles_of_not_gives hbegins.not_gives)
  obtain ⟨x₂, y₂, hin₂, -⟩ := hbody c₁ c₂ _ _ _ _ _ hc₁ hc₂ hin₁
  obtain ⟨f₂, g₂, hR₂, hrev₂⟩ := hbegun.trans hbody (fun _ _ _ _ => ⟨c₁, hc₁⟩) c c₂ old q b f g hc hc₂ hR
  have hinside : last.Inside c₂.tree b g₂ := hcloses.inside hR₂ hin₂ hsnew (by rw [hR.root]; rfl)
  obtain ⟨f', g', hR', hrev'⟩ := hR₂.carries hinside hc₂ hc' hlast hres'
    (fun _ _ _ => Change.own_of_not_gives hcloses.not_gives _)
    (Change.settles_of_not_gives hcloses.not_gives)
  refine ⟨f', g', hR', fun w₀ c₀ h => ?_⟩
  obtain ⟨h₂, hn₂⟩ := hrev₂ w₀ c₀ h
  obtain ⟨h', hn'⟩ := hrev' w₀ c₀ h₂
  refine ⟨?_, hn'.trans hn₂⟩
  rw [List.append_assoc] at h'
  exact h'

/-! ## Structured runs can be undone -/

theorem Structured.carries {run : Run α} {r : Except Stop α}
    (h : Structured k pre held run w steps r w' held') : Carries k pre held w steps w' held' := by
  induction h with
  | aside hexec hg => exact carries_gain hg
  | change c ha hrun hexec hr =>
    obtain ⟨res, hexec, hres⟩ := Run.exec_change c hrun hexec hr
    exact carries_allowed ha hexec hres
  | rename hreserve hc hname hcommit => exact carries_rename hreserve hc hname hcommit
  | bind hx hf ih ih' =>
    refine ih.trans ih' fun c c' hc hc' => hf.trail.context? ?_ hc'
    exact Nat.lt_of_lt_of_le (Run.lt_size_of_context? hc) hx.trail.count_le
  | stop _ ih => exact ih
  | scope hpush hbody hleave ih =>
    obtain ⟨res, hfirst, hres⟩ := Run.exec_change .push rfl hpush (by simp)
    obtain ⟨res', hlast, hres'⟩ := Run.exec_change (.leave _) rfl hleave (by simp)
    exact carries_nested trivial hfirst hres (fun c hc => ⟨Run.exec_pushScope_ok hc hpush, rfl⟩)
      hbody.trail ih hlast hres'
  | handle hpush hbody hpop ih =>
    obtain ⟨res, hfirst, hres⟩ := Run.exec_change .push rfl hpush (by simp)
    obtain ⟨res', hlast, hres'⟩ := Run.exec_change .pop rfl hpop (by simp)
    exact carries_nested trivial hfirst hres (fun c hc => ⟨Run.exec_pushScope_ok hc hpush, trivial⟩)
      hbody.trail ih hlast hres'
  | @protect α body pre steps held held' w w₁ w₂ w' detail call r how result henter hbody hhow hleave hr ih =>
    obtain ⟨res, hfirst, hres⟩ := Run.exec_change (.enter detail) rfl henter (by simp)
    obtain ⟨res', hlast, hres'⟩ := Run.exec_change (.exit call (how.map fun _ => ()))
      (Run.discard_leaveCall k call how) hleave hr
    have hs : ∀ c, w.context? k = some c → c.tree.push.1 = some call.boundary ∧
        (Change.exit call (how.map fun _ => ())).Closes call.boundary c.tree.current := by
      intro c hc
      obtain ⟨hpush, hresume, -⟩ := Run.exec_enterCall_ok hc henter
      exact ⟨hpush, rfl, hresume⟩
    exact carries_nested trivial hfirst hres hs hbody.trail ih hlast hres'

end ScopedResources
