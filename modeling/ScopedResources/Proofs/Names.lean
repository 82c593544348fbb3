/-
  The program's name, and the overrides that replace it.

  An override replaces the program's name and leaves a record that puts back the name
  which it replaced.  So the name is always the one that was written last, by an
  override or by the end of one, in whatever order the overrides end.  If they end
  latest first, this is the name that the latest of those alive has given; in another
  order an override brings back a name whose own override may have ended long ago.

  * `Override`, `overrides`: the overrides of a run in a context, the latest first;
    `Override.alive` are those whose records are alive.
  * `Step.names`: the names that an operation writes.
  * `Naming` are the pieces of the runs in which only overrides rename a program.
  * `NewestFirst`: the overrides that an operation ends are the latest of those alive.
  * `program_named`: the law for all orders, and the name where overrides end latest
    first.
-/
import ScopedResources.Proofs.Conservation
import ScopedResources.Proofs.Contexts
import ScopedResources.Proofs.Made
import ScopedResources.Proofs.Structured

namespace ScopedResources

/-! ## Overrides -/

/-- An override of the program's name. -/
structure Override where
  record : Index
  /-- The name that it gives. -/
  name : String
  /-- The name that its end puts back. -/
  previous : String
  deriving DecidableEq, Repr

namespace Override

def due (o : Override) : Due Release :=
  ⟨o.record, .restoreName o.previous⟩

/-- Whether the record of an override is alive. -/
def alive (o : Override) (c : Context) : Bool :=
  c.tree.release? o.record = some (.restoreName o.previous)

end Override

/-- The override that an operation completes in a context: its record gets the release
    that puts the name back. -/
def Step.override? (s : Step) (k : ContextId) : Option Override :=
  match s.op with
  | .change j (.commit i (.restoreName previous)) =>
    if j = k then some ⟨i, (s.before.context k).program, previous⟩ else none
  | _ => none

/-- The overrides of a context, the latest first. -/
def overrides (steps : List Step) (k : ContextId) : List Override :=
  (steps.filterMap (·.override? k)).reverse

/-- What an operation makes due in a context. -/
def Step.dueIn (s : Step) (k : ContextId) : List (Due Release) :=
  match s.op with
  | .change j c => if j = k then c.due (s.before.ledger.answer k) else []
  | .newContext _ | .dropContext _ => []

/-- The name that a context is created with. -/
def Step.created? (s : Step) (k : ContextId) : Option String :=
  match s.op with
  | .newContext program => if s.before.contexts.size = k then some program else none
  | .dropContext _ | .change _ _ => none

/-- The name that a context was created with. -/
def original? (steps : List Step) (k : ContextId) : Option String :=
  (steps.filterMap (·.created? k)).head?

/-- The names that an operation writes in a context, in order. -/
def Step.names (s : Step) (k : ContextId) : List String :=
  (s.created? k).toList ++ (s.override? k).toList.map (·.name) ++ restored (s.dueIn k)

/-- The releases that put names back. -/
def restoring (due : List (Due Release)) : List (Due Release) :=
  due.filter (·.release.name?.isSome)

/-- Whether the overrides that an operation ends in a context are the latest of those
    alive, and end latest first. -/
def NewestFirst (steps : List Step) (k : ContextId) : Prop :=
  ∀ n (_ : n < steps.length), restoring (steps[n].dueIn k) <+:
    ((overrides (steps.take n) k).filter (·.alive (steps[n].before.context k))).map (·.due)

instance (steps : List Step) (k : ContextId) : Decidable (NewestFirst steps k) :=
  inferInstanceAs (Decidable (∀ n (_ : n < steps.length), _))

/-- The pieces of runs in which only overrides rename a program. -/
inductive Naming : {α : Type} → Run α → World → List Step → Except Stop α → World → Prop
  /-- A run that leaves the contexts alone. -/
  | aside {α : Type} {run : Run α} {w w' : World} {r : Except Stop α} :
    run.exec w = (r, w') → w'.contexts = w.contexts → w'.journal.ran = w.journal.ran →
    Naming run w [] r w'
  /-- An operation that gives no record a name to put back. -/
  | op {α : Type} {run : Run α} {w w' : World} {r : Except Stop α} (o : Op) :
    o.Finds w → (∀ d ∈ o.given, d.release.name? = none) →
    discard run = o.run → run.exec w = (r, w') → r ≠ .error .abort →
    Naming run w [⟨w, o, w'⟩] r w'
  /-- An override: a new record, the new name, and the release that puts the old one
      back. -/
  | override {k : ContextId} {w w₁ w₂ w' : World} {name : String} {c : Context} {i : Index} :
    (Run.reserve k).exec w = (.ok i, w₁) → w₁.context? k = some c →
    (Run.onContext k fun c => ((), { c with program := name })).exec w₁ = (.ok (), w₂) →
    (Run.commit k i (.restoreName c.program)).exec w₂ = (.ok (), w') →
    Naming (Run.setProgramName k name) w
      [⟨w, .change k .reserve, w₁⟩, ⟨w₂, .change k (.commit i (.restoreName c.program)), w'⟩]
      (.ok ()) w'

variable {w w' : World} {k : ContextId} {c c' : Context} {o : Override} {d : Due Release}
  {s : Step} {steps more pre post : List Step} {original name : String}

theorem overrides_snoc (pre : List Step) (s : Step) (k : ContextId) :
    overrides (pre ++ [s]) k = (s.override? k).toList ++ overrides pre k := by
  have hs : [s].filterMap (·.override? k) = (s.override? k).toList := by
    rcases h : s.override? k with _ | o <;> simp [h]
  rw [overrides, List.filterMap_append, hs, List.reverse_append]
  rcases s.override? k with _ | o <;> rfl

theorem original?_append (steps more : List Step) (k : ContextId) :
    original? (steps ++ more) k = (original? steps k).or (original? more k) := by
  rw [original?, List.filterMap_append, List.head?_append]
  rfl

/-! ## Names that are stacked -/

/-- Each override of a list, the latest first, has replaced the name that the next one
    gave, and the last of the list the original name. -/
def Stacked (original : String) : String → List Override → Prop
  | program, [] => program = original
  | program, o :: rest => program = o.name ∧ Stacked original o.previous rest

namespace Stacked

variable {program : String} {os ended rest : List Override}

/-- The latest overrides end, the latest first. -/
theorem of_append (h : Stacked original program (ended ++ rest)) :
    Stacked original ((ended.map (·.previous)).getLastD program) rest := by
  induction ended generalizing program with
  | nil => exact h
  | cons o ended ih =>
    rw [List.map_cons, List.getLastD_cons]
    exact ih h.2

theorem program_eq (h : Stacked original program os) :
    program = (os.head?.map (·.name)).getD original := by
  cases os with
  | nil => exact h
  | cons o os => exact h.1

end Stacked

/-! ## What ends -/

theorem restored_restoring (due : List (Due Release)) : restored (restoring due) = restored due := by
  rw [restored, restoring, List.filterMap_filter]
  refine List.filterMap_congr fun d _ => ?_
  rcases d.release.name? with _ | name <;> rfl

theorem restored_map_due (os : List Override) : restored (os.map (·.due)) = os.map (·.previous) := by
  induction os with
  | nil => rfl
  | cons o os ih => exact congrArg (o.previous :: ·) ih

theorem mem_restoring (o : Override) {due : List (Due Release)} :
    o.due ∈ restoring due ↔ o.due ∈ due :=
  List.mem_filter.trans (and_iff_left rfl)

theorem Override.alive_iff_holds (o : Override) (c : Context) :
    o.alive c = true ↔ c.tree.holds o.due = true := by
  rw [Tree.holds_iff_release? fun payload h => by cases h]
  exact decide_eq_true_iff

/-- After a change, the overrides that it has not made due are alive. -/
theorem Override.alive_of_apply {f : Forest Release} (hf : c.tree.Shows f) (ch : Change)
    (hc' : c'.hold = ch.apply c.hold) (hfresh : ∀ e ∈ ch.given, c.tree.release? e.record = none)
    (ho : o.due ∉ ch.given) :
    o.alive c' = true ↔ o.alive c = true ∧ o.due ∉ ch.due c.hold := by
  have hpos : ∀ {l : List (Due Release)}, 0 < tally l o.due ↔ o.due ∈ l :=
    tally_pos_iff_mem fun payload h => by cases h
  have hgiven : ¬ 0 < tally ch.given o.due := mt hpos.1 ho
  have hbalance := (Change.outcome (h := c.hold) hf ch).1.balance hf.isScope_current hfresh o.due
  have htree : c'.tree = (ch.apply c.hold).tree := congrArg Hold.tree hc'
  have hle := Bool.toNat_le (c.tree.holds o.due)
  have hhold : c.hold.tree = c.tree := rfl
  rw [← htree, hhold] at hbalance
  rw [o.alive_iff_holds, o.alive_iff_holds, ← hpos, ← Bool.toNat_eq_one, ← Bool.toNat_eq_one]
  omega

theorem Step.given_of_override? (h : s.override? k = some o) : s.op.given = [o.due] := by
  unfold Step.override? at h
  split at h
  · rename_i j i previous hop
    split at h
    · cases h
      rw [hop]
      rfl
    · cases h
  · cases h

theorem Step.override?_of_given (h : ∀ d ∈ s.op.given, d.release.name? = none) :
    s.override? k = none := by
  rw [Option.eq_none_iff_forall_ne_some]
  intro o ho
  rw [Step.given_of_override? ho] at h
  cases h _ (List.mem_singleton_self _)

theorem Step.override?_of_other (h : ∀ ch, s.op ≠ .change k ch) : s.override? k = none := by
  unfold Step.override?
  split
  · rename_i j i previous hop
    exact if_neg fun hj => h _ (by rw [hop, hj])
  · rfl

theorem Step.dueIn_of_other (h : ∀ ch, s.op ≠ .change k ch) : s.dueIn k = [] := by
  unfold Step.dueIn
  split
  · rename_i j ch hop
    exact if_neg fun hj => h _ (by rw [hop, hj])
  all_goals rfl

/-- The overrides of a run have records of their own. -/
theorem overrides_sublist (steps : List Step) (k : ContextId) :
    ((steps.filterMap (·.override? k)).map (·.due)).Sublist (given steps) := by
  induction steps with
  | nil => exact .slnil
  | cons s steps ih =>
    rw [given_cons]
    rcases h : s.override? k with _ | o
    · simp only [List.filterMap_cons, h]
      exact ih.trans (List.sublist_append_right _ _)
    · simp only [List.filterMap_cons, h, List.map_cons, Step.given_of_override? h]
      exact ih.cons_cons _

theorem Linear.nodup_overrides (h : Linear steps) (k : ContextId) :
    ((overrides steps k).map (·.record)).Nodup := by
  have hrecords := ((overrides_sublist steps k).map Due.record).nodup h
  rw [List.map_map] at hrecords
  rw [overrides, List.map_reverse, List.nodup_reverse]
  exact hrecords

/-- Where some of a list of overrides end, which are its first, the others stay. -/
theorem filter_alive_of_ended {ended rest : List Override} {due : List (Due Release)}
    (hn : ((ended ++ rest).map (·.record)).Nodup) (hended : ended.map (·.due) = restoring due)
    (halive : ∀ o ∈ ended ++ rest, o.alive c' = true ↔ o.due ∉ due) :
    (ended ++ rest).filter (·.alive c') = rest := by
  have hdead : ended.filter (·.alive c') = [] := by
    refine List.filter_eq_nil_iff.2 fun o ho h => ?_
    refine (halive o (List.mem_append_left _ ho)).1 h ((mem_restoring o).1 ?_)
    rw [← hended]
    exact List.mem_map_of_mem ho
  have hrest : rest.filter (·.alive c') = rest := by
    refine List.filter_eq_self.2 fun o ho => (halive o (List.mem_append_right _ ho)).2 fun hdue => ?_
    rw [← mem_restoring o, ← hended] at hdue
    obtain ⟨e, he, heq⟩ := List.mem_map.1 hdue
    -- an override that has ended and one that stays have different records
    rw [List.map_append, List.nodup_append] at hn
    exact hn.2.2 _ (List.mem_map_of_mem he) _ (List.mem_map_of_mem ho) (congrArg Due.record heq)
  rw [List.filter_append, hdead, hrest]
  rfl

/-- After a change, those overrides are alive that it has not ended. -/
theorem filter_alive_of_apply {f : Forest Release} (hf : c.tree.Shows f) (ch : Change)
    (hc' : c'.hold = ch.apply c.hold) (hfresh : ∀ e ∈ ch.given, c.tree.release? e.record = none)
    (hgiven : ∀ d ∈ ch.given, d.release.name? = none) {os ended rest : List Override}
    (hn : (os.map (·.record)).Nodup) (halive : os.filter (·.alive c) = ended ++ rest)
    (hended : ended.map (·.due) = restoring (ch.due c.hold)) : os.filter (·.alive c') = rest := by
  have hin : ∀ o : Override, o.alive c' = true ↔ o.alive c = true ∧ o.due ∉ ch.due c.hold :=
    fun o => o.alive_of_apply hf ch hc' hfresh fun ho => by cases hgiven _ ho
  have hfilter : os.filter (·.alive c') = (ended ++ rest).filter (·.alive c') := by
    rw [← halive, List.filter_filter]
    refine List.filter_congr fun o _ => ?_
    rcases ho : o.alive c' with _ | _
    · rfl
    · rw [((hin o).1 ho).1]; rfl
  rw [hfilter]
  refine filter_alive_of_ended ?_ hended fun o ho => ?_
  · rw [← halive]
    exact (List.filter_sublist.map _).nodup hn
  · rw [hin o, and_iff_right]
    rw [← halive] at ho
    exact (List.mem_filter.1 ho).2

/-- The override whose record gets its release is alive. -/
theorem Override.alive_of_commit {owner : Index} (hi : c.tree.record? o.record = some (owner, none))
    (hc' : c'.hold = Change.apply (.commit o.record (.restoreName o.previous)) c.hold) :
    o.alive c' = true := by
  have hnode := Tree.record?_eq_some_iff.1 hi
  have htree : c'.tree = (c.tree.commit o.record (.restoreName o.previous)).2 :=
    congrArg Hold.tree hc'
  have hnodes : c'.tree.nodes = c.tree.nodes.set o.record
      (.record owner (some (.restoreName o.previous))) := by
    rw [htree, Tree.commit_of_record hnode]
  have hrecord := Tree.record?_set hnode hnodes o.record
  rw [if_pos rfl] at hrecord
  refine decide_eq_true ?_
  rw [Tree.release?, hrecord]
  rfl

/-! ## One operation -/

/-- What is known of the name of a context after the operations `pre`. -/
structure Renamed (k : ContextId) (pre : List Step) (c : Context) : Prop where
  written : (pre.flatMap (·.names k)).getLast? = some c.program
  stacked : ∃ original, original? pre k = some original ∧
    (NewestFirst pre k → Stacked original c.program ((overrides pre k).filter (·.alive c)))

theorem NewestFirst.of_append (h : NewestFirst (steps ++ more) k) : NewestFirst steps k := by
  intro n hn
  have hn' : n < (steps ++ more).length := by rw [List.length_append]; omega
  have hlast := h n hn'
  rw [List.getElem_append_left hn, List.take_append_of_le_length (Nat.le_of_lt hn)] at hlast
  exact hlast

theorem NewestFirst.last (h : NewestFirst (steps ++ [s]) k) :
    restoring (s.dueIn k) <+:
      ((overrides steps k).filter (·.alive (s.before.context k))).map (·.due) := by
  have hlast := h steps.length (by simp)
  simpa using hlast

theorem getLast?_append_of_eq {l m : List String} (h : l.getLast? = some name) :
    (l ++ m).getLast? = some (m.getLastD name) := by
  rw [List.getLast?_append, h, List.getLastD_eq_getLast?]
  rcases m.getLast? with _ | a <;> rfl

namespace Renamed

/-- An operation that has no part in the names of a context. -/
theorem other (h : Renamed k pre c) (hcreated : s.created? k = none)
    (hoverride : s.override? k = none) (hdue : s.dueIn k = []) : Renamed k (pre ++ [s]) c where
  written := by
    have hnames : s.names k = [] := by rw [Step.names, hcreated, hoverride, hdue]; rfl
    rw [List.flatMap_append, List.flatMap_singleton, hnames, List.append_nil]
    exact h.written
  stacked := by
    obtain ⟨original, horiginal, hstacked⟩ := h.stacked
    refine ⟨original, by rw [original?_append, horiginal]; rfl, fun hnew => ?_⟩
    rw [overrides_snoc, hoverride]
    exact hstacked hnew.of_append

/-- A context that is created. -/
theorem created {program : String} (hcreated : s.created? k = some program)
    (hpre : original? pre k = none) (hoverride : s.override? k = none) (hdue : s.dueIn k = []) :
    Renamed k (pre ++ [s]) (Context.new k program) where
  written := by
    have hnames : s.names k = [program] := by rw [Step.names, hcreated, hoverride, hdue]; rfl
    rw [List.flatMap_append, List.flatMap_singleton, hnames, List.getLast?_append]
    rfl
  stacked := by
    have hs : original? [s] k = some program := by simp [original?, hcreated]
    refine ⟨program, by rw [original?_append, hpre, hs]; rfl, fun _ => ?_⟩
    have hnone : (overrides (pre ++ [s]) k).filter (·.alive (Context.new k program)) = [] := by
      refine List.filter_eq_nil_iff.2 fun o _ ho => ?_
      cases (Tree.release?_new _ o.record).symm.trans (of_decide_eq_true ho)
    rw [hnone]
    rfl

end Renamed

theorem Step.dueIn_change {ch : Change} (hc : w.context? k = some c) :
    (⟨w, .change k ch, w'⟩ : Step).dueIn k = ch.due c.hold := by
  show (if k = k then ch.due (w.ledger.answer k) else []) = _
  rw [if_pos rfl, Ledger.answer_of_hold (World.hold_of_context? hc)]

theorem Change.due_commit_of_record {owner i : Index} {old : Option Release} {r : Release}
    (hi : c.tree.record? i = some (owner, old)) : Change.due (.commit i r) c.hold = [] := by
  show (if (c.tree.commit i r).1 = true then [] else _) = []
  rw [Tree.commit_of_record (Tree.record?_eq_some_iff.1 hi)]
  rfl

/-- A change that gives no record a name to put back: it puts back the names of the
    overrides that it ends. -/
theorem Renamed.change (h : Renamed k pre c) {f : Forest Release} (hf : c.tree.Shows f) (ch : Change)
    (hc : w.context? k = some c) (hc' : c'.hold = ch.apply c.hold)
    (hprogram : c'.program = (restored (ch.due c.hold)).getLastD c.program)
    (hfresh : ∀ e ∈ ch.given, c.tree.release? e.record = none)
    (hgiven : ∀ d ∈ ch.given, d.release.name? = none) (hlin : Linear pre) :
    Renamed k (pre ++ [⟨w, .change k ch, w'⟩]) c' := by
  have hoverride : (⟨w, .change k ch, w'⟩ : Step).override? k = none :=
    Step.override?_of_given hgiven
  have hdue : (⟨w, .change k ch, w'⟩ : Step).dueIn k = ch.due c.hold := Step.dueIn_change hc
  refine ⟨?_, ?_⟩
  · have hnames : (⟨w, .change k ch, w'⟩ : Step).names k = restored (ch.due c.hold) := by
      rw [Step.names, hoverride, hdue]; rfl
    rw [List.flatMap_append, List.flatMap_singleton, hnames, getLast?_append_of_eq h.written, hprogram]
  · obtain ⟨original, horiginal, hstacked⟩ := h.stacked
    refine ⟨original, by rw [original?_append, horiginal]; rfl, fun hnew => ?_⟩
    have hstacked := hstacked hnew.of_append
    have hlast := hnew.last
    rw [hdue, World.context_of_context? hc] at hlast
    obtain ⟨ended, rest, halive, hended⟩ :
        ∃ ended rest, (overrides pre k).filter (·.alive c) = ended ++ rest ∧
          ended.map (·.due) = restoring (ch.due c.hold) := by
      obtain ⟨tail, htail⟩ := hlast
      obtain ⟨ended, rest, he, hended, -⟩ := List.map_eq_append_iff.1 htail.symm
      exact ⟨ended, rest, he, hended⟩
    have hafter : (overrides pre k).filter (·.alive c') = rest :=
      filter_alive_of_apply hf ch hc' hfresh hgiven (hlin.nodup_overrides k) halive hended
    rw [overrides_snoc, hoverride, hprogram]
    show Stacked _ _ ((overrides pre k).filter (·.alive c'))
    rw [hafter, ← restored_restoring, ← hended, restored_map_due]
    rw [halive] at hstacked
    exact hstacked.of_append

/-- A change that completes an override. -/
theorem Renamed.overridden (h : Renamed k pre c) {f : Forest Release} (hf : c.tree.Shows f) {i : Index}
    (hc : w.context? k = some { c with program := name })
    (hc' : c'.hold = Change.apply (.commit i (.restoreName c.program)) c.hold)
    (hprogram : c'.program = name) {owner : Index} (hi : c.tree.record? i = some (owner, none))
    (hlin : i ∉ (given pre).map (·.record)) :
    Renamed k (pre ++ [⟨w, .change k (.commit i (.restoreName c.program)), w'⟩]) c' := by
  obtain ⟨s, hs⟩ : ∃ s : Step, s = ⟨w, .change k (.commit i (.restoreName c.program)), w'⟩ := ⟨_, rfl⟩
  obtain ⟨o, ho⟩ : ∃ o : Override, o = ⟨i, name, c.program⟩ := ⟨_, rfl⟩
  have hoverride : s.override? k = some o := by
    rw [hs, ho]
    show (if k = k then some (Override.mk i (w.context k).program c.program) else none) = _
    rw [if_pos rfl, World.context_of_context? hc]
  have hnone : Change.due (.commit i (.restoreName c.program)) c.hold = [] :=
    Change.due_commit_of_record hi
  have hdue : s.dueIn k = [] := by
    rw [hs, Step.dueIn_change hc]
    exact hnone
  have hfresh : ∀ e ∈ Change.given (.commit i (.restoreName c.program)),
      c.tree.release? e.record = none := by
    intro e he
    rw [List.mem_singleton.1 he, Tree.release?, hi]
    rfl
  have hsame : ∀ e ∈ overrides pre k, e.alive c' = e.alive c := by
    intro e he
    have hne : e.due ∉ Change.given (.commit i (.restoreName c.program)) := by
      intro hmem
      refine hlin (List.mem_map.2 ⟨e.due, ?_, congrArg Due.record (List.mem_singleton.1 hmem)⟩)
      exact (overrides_sublist pre k).subset (List.mem_map_of_mem (List.mem_reverse.1 he))
    have halive := e.alive_of_apply hf _ hc' hfresh hne
    rw [hnone, and_iff_left (by simp)] at halive
    exact Bool.eq_iff_iff.2 halive
  have hself : o.alive c' = true := by
    rw [ho]
    exact Override.alive_of_commit hi hc'
  rw [← hs]
  refine ⟨?_, ?_⟩
  · have hnames : s.names k = [name] := by
      rw [Step.names, hoverride, hdue, ho, hs]; rfl
    rw [List.flatMap_append, List.flatMap_singleton, hnames, List.getLast?_append, hprogram]
    rfl
  · obtain ⟨original, horiginal, hstacked⟩ := h.stacked
    refine ⟨original, by rw [original?_append, horiginal]; rfl, fun hnew => ?_⟩
    have hfilter : (overrides (pre ++ [s]) k).filter (·.alive c') =
        o :: (overrides pre k).filter (·.alive c) := by
      rw [overrides_snoc, hoverride]
      show (o :: overrides pre k).filter (·.alive c') = _
      rw [List.filter_cons, if_pos hself]
      exact congrArg (o :: ·) (List.filter_congr hsame)
    rw [hfilter, hprogram, ho]
    exact ⟨rfl, hstacked hnew.of_append⟩

/-! ## A whole run -/

/-- The invariant of runs in which only overrides rename a program, after the operations
    `pre`. -/
structure Named (k : ContextId) (pre : List Step) (w : World) : Prop where
  balanced : Balanced w.ledger (given pre)
  created : ∀ name, original? pre k = some name → k < w.contexts.size
  renamed : ∀ c, w.context? k = some c → Renamed k pre c

namespace Named

theorem congr (h : Named k pre w) (hc : w'.contexts = w.contexts)
    (hr : w'.journal.ran = w.journal.ran) : Named k pre w' where
  balanced := by
    rw [World.ledger_congr hc hr]
    exact h.balanced
  created := by rw [hc]; exact h.created
  renamed c hc' := h.renamed c (by rw [World.context?, ← hc]; exact hc')

/-- After an operation it is left to show that the name is what it should be. -/
theorem of_step {o : Op} (hb : Balanced w.ledger (given pre))
    (hcreated : ∀ name, original? pre k = some name → k < w.contexts.size)
    (hlin : Linear (pre ++ [⟨w, o, w'⟩])) (hstep : w'.ledger = o.step w.ledger)
    (hrenamed : ∀ c', w'.context? k = some c' → Renamed k (pre ++ [⟨w, o, w'⟩]) c') :
    Named k (pre ++ [⟨w, o, w'⟩]) w' where
  balanced := by
    rw [hstep, given_snoc]
    exact hb.step o hlin.records
  created name hname := by
    have hcount : w.contexts.size ≤ w'.contexts.size := by
      have hle := count_step (l := w.ledger) o
      rwa [← hstep] at hle
    rw [original?_append] at hname
    rcases ho : original? pre k with _ | before
    · rw [ho] at hname
      cases o with
      | newContext program =>
        have hsize : w'.contexts.size = w.contexts.size + 1 := congrArg Ledger.count hstep
        by_cases hk : w.contexts.size = k
        · rw [hsize, hk]
          exact Nat.lt_succ_self k
        · simp [original?, Step.created?, hk] at hname
      | dropContext j => cases hname
      | change j c => cases hname
    · exact Nat.lt_of_lt_of_le (hcreated before ho) hcount
  renamed := hrenamed

/-- An operation that does not change a context leaves its name. -/
theorem renamed_other (h : Named k pre w) {o : Op} {r : Except Stop Unit} (hfinds : o.Finds w)
    (hexec : o.run.exec w = (r, w')) (hr : r ≠ .error .abort) (hother : ∀ ch, o ≠ .change k ch)
    (hc' : w'.context? k = some c') : Renamed k (pre ++ [⟨w, o, w'⟩]) c' := by
  have hk := World.hold_of_context? hc'
  rw [o.ledger_of_exec hexec hr] at hk
  have hoverride : (⟨w, o, w'⟩ : Step).override? k = none := Step.override?_of_other hother
  have hdue : (⟨w, o, w'⟩ : Step).dueIn k = [] := Step.dueIn_of_other hother
  rcases hold_step o hk with ⟨-, hold⟩ | ⟨_, ch, -, hop, -⟩ | ⟨program, hop, hcount, -⟩
  · have hlt : k < w.contexts.size := h.balanced.sound.lt k _ hold
    have hcreated : (⟨w, o, w'⟩ : Step).created? k = none := by
      unfold Step.created?
      split
      · exact if_neg fun hj : w.contexts.size = k => Nat.lt_irrefl k (hj ▸ hlt)
      all_goals rfl
    exact (h.renamed c' (o.context?_of_other hfinds hexec hr hother hlt hc')).other
      hcreated hoverride hdue
  · exact absurd hop (hother ch)
  · subst hop
    have hcount : k = w.contexts.size := hcount
    have hcreated : (⟨w, .newContext program, w'⟩ : Step).created? k = some program :=
      if_pos hcount.symm
    have hpre : original? pre k = none := by
      rw [Option.eq_none_iff_forall_ne_some]
      intro name hname
      exact Nat.lt_irrefl k (hcount ▸ h.created name hname)
    obtain rfl : c' = Context.new k program := by
      rw [Op.run, Run.exec_discard] at hexec
      cases hexec
      rw [hcount] at hc' ⊢
      exact Option.some.inj (hc'.symm.trans (w.context?_newContext program))
    exact Renamed.created hcreated hpre hoverride hdue

/-- An operation that gives no record a name to put back. -/
theorem op (h : Named k pre w) {o : Op} {r : Except Stop Unit}
    (hlin : Linear (pre ++ [⟨w, o, w'⟩])) (hfinds : o.Finds w)
    (hgiven : ∀ d ∈ o.given, d.release.name? = none) (hexec : o.run.exec w = (r, w'))
    (hr : r ≠ .error .abort) : Named k (pre ++ [⟨w, o, w'⟩]) w' := by
  refine of_step h.balanced h.created hlin (o.ledger_of_exec hexec hr) fun c' hc' => ?_
  by_cases hchange : ∃ ch, o = .change k ch
  · obtain ⟨ch, rfl⟩ := hchange
    obtain ⟨c, hc⟩ := Option.isSome_iff_exists.1 (hfinds k ch rfl)
    have hhold := World.hold_of_context? hc
    obtain ⟨f, hf⟩ := h.balanced.sound.shows k _ hhold
    obtain ⟨hc'', hprogram⟩ := ch.context?_of_own hc hexec hr hc'
    exact (h.renamed c hc).change hf ch hc hc'' hprogram
      (h.balanced.fresh hlin.records k _ hhold) hgiven h.balanced.linear
  · exact h.renamed_other hfinds hexec hr (fun ch ho => hchange ⟨ch, ho⟩) hc'

/-- The end of an override: the name is replaced, and the record that was reserved for it
    gets its release. -/
theorem overridden (h : Named k pre w) {j : ContextId} {i owner : Index} {w₂ : World}
    (hlin : Linear (pre ++ [⟨w₂, .change j (.commit i (.restoreName c.program)), w'⟩]))
    (hc : w.context? j = some c) (hi : c.tree.record? i = some (owner, none))
    (hname : (Run.onContext j fun c => ((), { c with program := name })).exec w = (.ok (), w₂))
    (hcommit : (Run.commit j i (.restoreName c.program)).exec w₂ = (.ok (), w')) :
    Named k (pre ++ [⟨w₂, .change j (.commit i (.restoreName c.program)), w'⟩]) w' := by
  obtain ⟨hledger, -, -, hcontext⟩ := Run.exec_renamed hname
  have hsize : w₂.contexts.size = w.contexts.size := congrArg Ledger.count hledger
  have hc₂ : w₂.context? j = some { c with program := name } := by
    rw [hcontext, if_pos rfl, hc]; rfl
  have hexec : (Op.change j (.commit i (.restoreName c.program))).run.exec w₂ = (.ok (), w') :=
    Run.exec_of_discard rfl hcommit
  have hbalanced : Balanced w₂.ledger (given pre) := by rw [hledger]; exact h.balanced
  refine of_step hbalanced (by rw [hsize]; exact h.created) hlin
    (Op.ledger_of_exec _ hexec (by simp)) fun c' hc' => ?_
  by_cases hj : j = k
  · subst hj
    obtain ⟨f, hf⟩ := h.balanced.sound.shows j _ (World.hold_of_context? hc)
    obtain ⟨hhold, hprogram⟩ :=
      Change.context?_of_own (.commit i (.restoreName c.program)) hc₂ hexec (by simp) hc'
    have hnone : Change.due (.commit i (.restoreName c.program))
        (Context.hold { c with program := name }) = [] := Change.due_commit_of_record hi
    have hrecords := hlin.records
    rw [hnone] at hprogram
    rw [List.map_append, List.nodup_append] at hrecords
    exact (h.renamed c hc).overridden hf hc₂ hhold hprogram hi fun hmem =>
      hrecords.2.2 _ hmem _ (List.mem_singleton_self _) rfl
  · have h₂ : Named k pre w₂ := ⟨hbalanced, by rw [hsize]; exact h.created, fun c' hc' => by
      rw [hcontext, if_neg fun hk => hj hk.symm] at hc'
      exact h.renamed c' hc'⟩
    refine h₂.renamed_other (Op.finds_change (Option.isSome_of_eq_some hc₂) _) hexec (by simp)
      (fun ch hop => ?_) hc'
    cases hop
    exact hj rfl

end Named

namespace Naming

variable {α : Type} {run : Run α} {r : Except Stop α}

/-- A reservation leaves its record in the context, which was there before. -/
theorem reserved {i : Index} (hl : w.ledger.Sound) (hexec : (Run.reserve k).exec w = (.ok i, w'))
    (hc' : w'.context? k = some c') :
    (∃ c, w.context? k = some c) ∧ ∃ owner, c'.tree.record? i = some (owner, none) := by
  have hstep := Run.step_of_change .reserve rfl hexec (by simp)
  have hhold := World.hold_of_context? hc'
  have hold := hhold
  rw [hstep] at hold
  obtain ⟨c, hc⟩ : ∃ c, w.context? k = some c := by
    rcases hold_step _ hold with ⟨hne, -⟩ | ⟨h, ch, hh, -, -⟩ | ⟨_, ho, -⟩
    · exact absurd rfl (hne .reserve)
    · obtain ⟨c, hc, -⟩ := World.context?_of_hold hh
      exact ⟨c, hc⟩
    · cases ho
  have hreserved : (⟨w, .change k .reserve, w'⟩ : Step).reserved? k = some i :=
    Step.reserved?_eq_some_iff.2 ⟨rfl, c.hold, World.hold_of_context? hc, Run.exec_reserve_ok hc hexec⟩
  obtain ⟨h, h', -, hk', -, hnode⟩ := Step.reserved?_spec hreserved hstep hl
  cases hhold.symm.trans hk'
  exact ⟨⟨c, hc⟩, _, Tree.record?_eq_some_iff.2 hnode⟩

/-- Every piece keeps the invariant. -/
theorem named (h : Naming run w steps r w') (hw : Named k pre w) (hlin : Linear (pre ++ steps)) :
    Named k (pre ++ steps) w' := by
  cases h with
  | aside _ hc hr =>
    rw [List.append_nil]
    exact hw.congr hc hr
  | op o hfinds hgiven hrun hexec hr =>
    have hexec' : o.run.exec w = (r.map fun _ => (), w') := Run.exec_of_discard hrun hexec
    exact hw.op hlin hfinds hgiven hexec' (Run.map_ne_abort hr)
  | @override j w w₁ w₂ w' name c i hreserve hc hname hcommit =>
    obtain ⟨⟨c₀, hc₀⟩, owner, hi⟩ := reserved hw.balanced.sound hreserve hc
    have hexec : (Op.change j .reserve).run.exec w = (.ok (), w₁) :=
      Run.exec_of_discard rfl hreserve
    rw [List.append_cons] at hlin ⊢
    have h₁ : Named k (pre ++ [⟨w, .change j .reserve, w₁⟩]) w₁ :=
      hw.op hlin.of_append (Op.finds_change (Option.isSome_of_eq_some hc₀) _)
        (fun d hd => by cases hd) hexec (by simp)
    exact h₁.overridden hlin hc hi hname hcommit

theorem exec_eq (h : Naming run w steps r w') : run.exec w = (r, w') := by
  cases h with
  | aside hexec _ _ => exact hexec
  | op o _ _ _ hexec _ => exact hexec
  | override hreserve hc hname hcommit =>
    rw [Run.setProgramName, Run.exec_bind_ok hreserve, Run.exec_bind_ok (Run.exec_view hc _),
      Run.exec_bind_ok hname, hcommit]

/-- Whatever becomes of it, an override is made of these pieces. -/
theorem made_setProgramName {r : Except Stop Unit} (hc : w.context? k = some c)
    (hexec : (Run.setProgramName k name).exec w = (r, w')) (hr : r ≠ .error .abort) :
    ∃ steps, Made Naming (Run.setProgramName k name) w steps r w' := by
  rcases hreserve : (Run.reserve k).exec w with ⟨e | i, w₁⟩
  · rw [Run.setProgramName, Run.exec_bind_error hreserve] at hexec
    cases hexec
    refine ⟨_, .stop (.piece (.op (.change k .reserve)
      (Op.finds_change (Option.isSome_of_eq_some hc) _) (fun d hd => by cases hd) rfl hreserve ?_))⟩
    intro he
    cases he
    exact hr rfl
  · have hprogram := (Run.calm_reserve k w).program k
    rw [hreserve, hc] at hprogram
    obtain ⟨c₁, hc₁, -⟩ := Option.map_eq_some_iff.1 hprogram
    obtain ⟨w₂, hname⟩ : ∃ w₂, (Run.onContext k fun c => ((), { c with program := name })).exec w₁ =
        (.ok (), w₂) := ⟨_, rfl⟩
    rw [Run.setProgramName, Run.exec_bind_ok hreserve, Run.exec_bind_ok (Run.exec_view hc₁ _),
      Run.exec_bind_ok hname] at hexec
    obtain ⟨⟨⟩, rfl⟩ := (Run.settles_commit k i _).ok hexec hr
    exact ⟨_, .piece (.override hreserve hc₁ hname hexec)⟩

/-- An operation that returns. -/
theorem of_ok (o : Op) (hfinds : o.Finds w) (hgiven : ∀ d ∈ o.given, d.release.name? = none)
    (hrun : discard run = o.run) {a : α} (h : (run.exec w).1 = .ok a) :
    Naming run w [⟨w, o, (run.exec w).2⟩] (.ok a) (run.exec w).2 :=
  .op o hfinds hgiven hrun (Prod.ext h rfl) (by simp)

/-- A change that is given nothing, and returns. -/
theorem of_change (ch : Change) (halive : (w.context? k).isSome = true) (hgiven : ch.given = [])
    (hrun : discard run = ch.run k) {a : α} (h : (run.exec w).1 = .ok a) :
    Naming run w [⟨w, .change k ch, (run.exec w).2⟩] (.ok a) (run.exec w).2 := by
  refine of_ok (.change k ch) (Op.finds_change halive ch) (fun d hd => ?_) hrun h
  rw [Op.given, hgiven] at hd
  cases hd

/-- An override that returns. -/
theorem of_override {name : String} {i : Index} {w₁ w₂ : World}
    (hreserve : ((Run.reserve k).exec w).1 = .ok i) (h₁ : ((Run.reserve k).exec w).2 = w₁)
    (halive : (w₁.context? k).isSome)
    (h₂ : ((Run.onContext k fun c => ((), { c with program := name })).exec w₁).2 = w₂)
    (hcommit : ((Run.commit k i (.restoreName (w₁.context k).program)).exec w₂).1 = .ok ()) :
    Naming (Run.setProgramName k name) w
      [⟨w, .change k .reserve, w₁⟩,
        ⟨w₂, .change k (.commit i (.restoreName (w₁.context k).program)),
          ((Run.commit k i (.restoreName (w₁.context k).program)).exec w₂).2⟩]
      (.ok ()) ((Run.commit k i (.restoreName (w₁.context k).program)).exec w₂).2 := by
  obtain ⟨c, hc⟩ := Option.isSome_iff_exists.1 halive
  have hcontext : w₁.context k = c := World.context_of_context? hc
  rw [← hcontext] at hc
  exact .override (Prod.ext hreserve h₁) hc (Prod.ext rfl h₂) (Prod.ext hcommit rfl)

end Naming

/-- The name of the program, in every run that renames it by overrides only.  It is the
    name that was written last.  If the overrides end latest first, it is the name of the
    latest override whose record is alive, and without one the original name. -/
theorem program_named {α : Type} {run : Run α} {host : Host} {identity : String} {log : Option Log}
    {r : Except Stop α} (hrun : Made Naming run (World.new host identity log) steps r w)
    (hlin : Linear steps) (hc : w.context? k = some c) :
    (steps.flatMap (·.names k)).getLast? = some c.program ∧
      ∃ original, original? steps k = some original ∧ (NewestFirst steps k →
        c.program = (((overrides steps k).find? (·.alive c)).map (·.name)).getD original) := by
  have hnone : ∀ j, (World.new host identity log).context? j = none := by
    intro j
    simp [World.new, World.context?]
  have hstart : Named k [] (World.new host identity log) :=
    ⟨balanced_new host identity log, (fun name h => by cases h), fun c hc => by
      rw [hnone k] at hc; cases hc⟩
  have hkeeps := hrun.keeps Linear.of_append (Named k) (Named k)
    (fun hpiece hw hlin => ⟨fun _ => hpiece.named hw hlin, fun _ => hpiece.named hw hlin⟩) hstart hlin
  have hnamed : Named k steps w := by
    by_cases hr : r = .error .abort
    · exact hkeeps.2 hr
    · exact hkeeps.1 hr
  obtain ⟨hwritten, original, horiginal, hstacked⟩ := hnamed.renamed c hc
  refine ⟨hwritten, original, horiginal, fun hnew => ?_⟩
  rw [(hstacked hnew).program_eq, List.head?_filter]

/-- Two overrides in scopes of their own, one within the other, of which the inner one
    has ended. -/
def nestedOverrides : Run Unit := do
  let _ ← Run.newContext "example"
  let _ ← Run.pushScope 0
  Run.setProgramName 0 "outer"
  let _ ← Run.pushScope 0
  Run.setProgramName 0 "inner"
  let _ ← Run.destroyScope 0 ⟨0, 3, 0⟩

/-- The theorem above where the inner one of two overrides has ended. -/
theorem program_named_nestedOverrides : ∃ steps w c,
    Made Naming nestedOverrides .start steps (.ok ()) w ∧ Linear steps ∧ NewestFirst steps 0 ∧
      w.context? 0 = some c ∧
        c.program = (((overrides steps 0).find? (·.alive c)).map (·.name)).getD "example" ∧
          c.program = "outer" := by
  obtain ⟨steps, w, hmade, hlin, hnew, horiginal⟩ : ∃ steps w,
      Made Naming nestedOverrides .start steps (.ok ()) w ∧ Linear steps ∧ NewestFirst steps 0 ∧
        original? steps 0 = some "example" := by
    refine ⟨_, _, .bind (.piece (.of_ok (a := 0) (.newContext "example") nofun nofun rfl rfl))
      (.bind (.piece (.of_change (a := ⟨0, 1, 0⟩) .push rfl rfl rfl rfl))
      (.bind (.piece (.of_override (i := ⟨0, 2, 0⟩) rfl rfl rfl rfl rfl))
      (.bind (.piece (.of_change (a := ⟨0, 3, 0⟩) .push rfl rfl rfl (by decide +kernel)))
      (.bind (.piece (.of_override (i := ⟨0, 4, 0⟩) (by decide +kernel) rfl (by decide +kernel) rfl
        (by decide +kernel)))
      (.bind (.piece (.of_change (a := true) (.destroy ⟨0, 3, 0⟩) (by decide +kernel) rfl rfl
        (by decide +kernel)))
      (.piece (.aside rfl rfl rfl))))))), ?_, ?_, rfl⟩
    · unfold Linear
      decide +kernel
    · decide +kernel
  have hw : nestedOverrides.exec .start = (.ok (), w) := hmade.exec_eq id Naming.exec_eq
  have hname : ((nestedOverrides.exec .start).2.context? 0).map (·.program) = some "outer" := by
    decide +kernel
  rw [hw] at hname
  obtain ⟨c, hc, houter⟩ := Option.map_eq_some_iff.1 hname
  obtain ⟨-, original, ho, hprogram⟩ := program_named hmade hlin hc
  cases horiginal.symm.trans ho
  exact ⟨steps, w, c, hmade, hlin, hnew, hc, hprogram hnew, houter⟩

/-- Two overrides that belong to handles, of which the older one has ended. -/
def overridesInHandles : Run Unit := do
  let _ ← Run.newContext "example"
  let _ ← Run.createHandle 0 (Run.setProgramName 0 "first")
  let _ ← Run.createHandle 0 (Run.setProgramName 0 "second")
  let _ ← Run.destroyHandle 0 (⟨⟨0, 1, 0⟩, ()⟩ : Handle Unit)

/-- In another order the name need not be that of the latest override alive: the end of an
    older one puts back the name that it replaced. -/
theorem program_putBack : ∃ steps w c,
    Made Naming overridesInHandles .start steps (.ok ()) w ∧ Linear steps ∧
      w.context? 0 = some c ∧
        (overrides steps 0).find? (·.alive c) = some ⟨⟨0, 4, 0⟩, "second", "first"⟩ ∧
          c.program = "example" := by
  obtain ⟨steps, w, hmade, hlin, hlatest⟩ : ∃ steps w,
      Made Naming overridesInHandles .start steps (.ok ()) w ∧ Linear steps ∧
        (overrides steps 0).find? (·.alive (w.context 0)) = some ⟨⟨0, 4, 0⟩, "second", "first"⟩ := by
    refine ⟨_, _, .bind (.piece (.of_ok (a := 0) (.newContext "example") nofun nofun rfl rfl))
      (.bind (.bind (.piece (.of_change (a := ⟨0, 1, 0⟩) .push rfl rfl rfl rfl))
        (.bind (.piece (.of_override (i := ⟨0, 2, 0⟩) rfl rfl rfl rfl rfl))
        (.bind (.piece (.of_change (a := ⟨0, 1, 0⟩) .pop rfl rfl rfl (by decide +kernel)))
        (.piece (.aside rfl rfl rfl)))))
      (.bind (.bind (.piece (.of_change (a := ⟨0, 3, 0⟩) .push (by decide +kernel) rfl rfl
          (by decide +kernel)))
        (.bind (.piece (.of_override (i := ⟨0, 4, 0⟩) (by decide +kernel) rfl (by decide +kernel) rfl
          (by decide +kernel)))
        (.bind (.piece (.of_change (a := ⟨0, 3, 0⟩) .pop (by decide +kernel) rfl rfl
          (by decide +kernel)))
        (.piece (.aside rfl rfl rfl)))))
      (.bind (.bind (.piece (.of_change (a := true) (.destroy ⟨0, 1, 0⟩) (by decide +kernel) rfl rfl
          (by decide +kernel)))
        (.piece (.aside rfl rfl rfl)))
      (.piece (.aside rfl rfl rfl))))), ?_, ?_⟩
    · unfold Linear
      decide +kernel
    · decide +kernel
  have hw : overridesInHandles.exec .start = (.ok (), w) := hmade.exec_eq id Naming.exec_eq
  have hname : ((overridesInHandles.exec .start).2.context? 0).map (·.program) = some "example" := by
    decide +kernel
  rw [hw] at hname
  obtain ⟨c, hc, hexample⟩ := Option.map_eq_some_iff.1 hname
  rw [World.context_of_context? hc] at hlatest
  exact ⟨steps, w, c, hmade, hlin, hc, hlatest, hexample⟩

end ScopedResources
