/-
  Teardowns commute.

  Several scopes of a context are torn down, in one order and in another.  What the context
  has lost in the end is the same; but a release may drop a context, whose own releases run
  then and may drop others, and it may be the context itself that is dropped on the way.
  What one order spares is spared by every other: the contexts that are gone after the one
  and the releases that have run are closed (`Ledger.Closed`), and no teardown within them
  leaves them.

  * `Ledger.hold_destroyAll`: what is in no closed set stays.
  * `Ledger.Razes`: what several teardowns do to a ledger.
  * `Ledger.destroyAll_perm`, `teardowns_commute`: the order does not matter.
-/
import Mathlib.Algebra.Order.BigOperators.Group.List
import ScopedResources.Proofs.Razing
import ScopedResources.Proofs.Surroundings

namespace ScopedResources

/-- What two contexts own that differ at most in the bookkeeping of their stores. -/
structure Hold.Same (x y : Hold) : Prop where
  nodes : ∀ i, x.tree.nodes.get? i = y.tree.nodes.get? i
  top : x.tree.top = y.tree.top
  current : x.tree.current = y.tree.current
  frame : x.frame = y.frame

namespace Ledger

variable {l l' l₁ l₂ : Ledger} {k i j : ContextId} {h h' : Hold} {d : Due Release} {s : Index}
  {scopes scopes' : List Index} {due new new' : List (Due Release)} {b : Nat}

/-! ## What outlasts a teardown -/

/-- A set of contexts and one of releases that a teardown does not leave: the contexts that
    the releases drop are among the contexts, and what the contexts owe is among the releases. -/
structure Closed (l : Ledger) (doomed : ContextId → Prop) (spent : Due Release → Prop) : Prop where
  named : ∀ d, spent d → ∀ label victim, d.release = .dropContext label victim → doomed victim
  owned : ∀ k, doomed k → ∀ d ∈ l.dues k, spent d

variable {doomed : ContextId → Prop} {spent : Due Release → Prop}

theorem Outlasts.dues (h : Outlasts l l') (k : ContextId) : l'.dues k = [] ∨ l'.dues k = l.dues k := by
  rcases hk : l'.hold k with _ | x
  · exact .inl (dues_of_none hk)
  · exact .inr ((dues_of_hold hk).trans (dues_of_hold (h.hold k x hk)).symm)

theorem Closed.of_outlasts (hc : l.Closed doomed spent) (h : Outlasts l l') : l'.Closed doomed spent where
  named := hc.named
  owned k hk d hd := by
    rcases h.dues k with he | he <;> rw [he] at hd
    · cases hd
    · exact hc.owned k hk d hd

/-- A context that is in no closed set stays. -/
def Keeps (drop : ContextId → Ledger → Ledger) (doomed : ContextId → Prop) (spent : Due Release → Prop) :
    Prop :=
  ∀ k l, l.Closed doomed spent → doomed k → ∀ j, ¬ doomed j → (drop k l).hold j = l.hold j

section

variable {drop : ContextId → Ledger → Ledger}

theorem hold_release (hd : Keeps drop doomed spent) (hc : l.Closed doomed spent) (hs : spent d)
    (hj : ¬ doomed j) : (release drop d l).hold j = l.hold j := by
  unfold release
  split
  · rename_i label victim hdrop
    exact hd victim (l.note d) (hc.of_outlasts (outlasts_note l d)) (hc.named d hs label victim hdrop) j hj
  all_goals rfl

theorem hold_releaseAll (ho : ∀ k l, Outlasts l (drop k l)) (hd : Keeps drop doomed spent)
    (hj : ¬ doomed j) : ∀ (due : List (Due Release)) {l : Ledger}, l.Closed doomed spent →
      (∀ d ∈ due, spent d) → (releaseAll drop due l).hold j = l.hold j
  | [], _, _, _ => rfl
  | d :: more, l, hc, hs => by
    rw [List.forall_mem_cons] at hs
    rw [releaseAll, hold_releaseAll ho hd hj more (hc.of_outlasts (outlasts_release ho d l)) hs.2,
      hold_release hd hc hs.1 hj]

end

theorem keeps_dropWithin : ∀ b : Nat, Keeps (dropWithin b) doomed spent
  | 0, _, _, _, _, _, _ => rfl
  | b + 1, k, l, hc, hk, j, hj => by
    rw [dropWithin]
    split
    · rename_i h hh
      have hjk : j ≠ k := fun he => hj (he ▸ hk)
      rw [hold_releaseAll (outlasts_dropWithin b) (keeps_dropWithin b) hj _
        (hc.of_outlasts (outlasts_take l k)) fun d hd => hc.owned k hk d (dues_of_hold hh ▸ hd),
        hold_take, if_neg hjk]
    · rfl

theorem keeps_drop : Keeps drop doomed spent := fun k l => keeps_dropWithin l.count k l

/-! ## One teardown -/

theorem dueOf_new (k : ContextId) (s : Index) : dueOf (Context.new k "").hold.tree s = [] := by
  rw [List.eq_nil_iff_forall_not_mem]
  intro d hd
  obtain ⟨o, ho, -⟩ := (Tree.shows_new (UInt32.ofNat k)).mem_dueOf_iff.1 hd
  cases (Tree.record?_new (UInt32.ofNat k) d.record).symm.trans ho

/-- A teardown leaves the contexts that are in no closed set: the context of its scope without
    the scope, and the others as they are. -/
theorem hold_destroy (hl : l.Sound) (hc : l.Closed doomed spent)
    (hs : ∀ h, l.hold k = some h → ∀ d ∈ dueOf h.tree s, spent d) :
    (l.onTree k fun t => (t.destroy s).2).Closed doomed spent ∧ ∀ j, ¬ doomed j →
      (l.destroy k s).hold j = (l.onTree k fun t => (t.destroy s).2).hold j := by
  have hclosed : (l.onTree k fun t => (t.destroy s).2).Closed doomed spent := by
    refine ⟨hc.named, fun i hi d hd => hc.owned i hi d ?_⟩
    rw [dues, hold_onTree] at hd
    split at hd
    · rename_i hik
      rcases hx : l.hold i with _ | x <;> rw [hx] at hd
      · cases hd
      · obtain ⟨f, hf⟩ := hl.shows i x hx
        rw [dues_of_hold hx, (hf.dueOf_destroy s).mem_iff]
        exact List.mem_append_right _ hd
    · exact hd
  refine ⟨hclosed, fun j hj => hold_releaseAll outlasts_drop keeps_drop hj _ hclosed fun d hd => ?_⟩
  rcases hk : l.hold k with _ | h
  · rw [answer, hk, Option.getD_none, dueOf_new] at hd
    cases hd
  · rw [answer_of_hold hk] at hd
    exact hs h hk d hd

/-! ## Several teardowns -/

/-- Tears several scopes of a context down, one after the other. -/
def destroyAll (l : Ledger) (k : ContextId) (scopes : List Index) : Ledger :=
  scopes.foldl (fun l s => l.destroy k s) l

theorem hold_destroyAll (hl : l.Sound) (hc : l.Closed doomed spent)
    (hs : ∀ h, l.hold k = some h → ∀ s ∈ scopes, ∀ d ∈ dueOf h.tree s, spent d) (hj : ¬ doomed j) :
    (l.destroyAll k scopes).hold j = (l.onTree k fun t => t.raze scopes).hold j := by
  induction scopes generalizing l with
  | nil =>
    rw [hold_onTree]
    split
    · exact Option.map_id'.symm
    · rfl
  | cons s scopes ih =>
    obtain ⟨hclosed, hhold⟩ := hold_destroy hl hc fun h hk => hs h hk s (List.mem_cons_self ..)
    have hout := outlasts_releaseAll outlasts_drop (dueOf (l.answer k).tree s)
      (l.onTree k fun t => (t.destroy s).2)
    have hsound : (l.destroy k s).Sound := hl.step (.change k (.destroy s))
    refine (ih hsound (hclosed.of_outlasts hout) ?_).trans ?_
    · intro x hx q hq d hd
      have hleft := hout.hold k x hx
      rw [hold_onTree, if_pos rfl] at hleft
      obtain ⟨h, hk, rfl⟩ := Option.map_eq_some_iff.1 hleft
      obtain ⟨f, hf⟩ := hl.shows k h hk
      exact hs h hk q (List.mem_cons_of_mem _ hq) d
        ((hf.razed_destroy s).mem_dueOf hf (hf.destroy_raze s).1 hd)
    · rw [hold_onTree, hold_onTree, hhold j hj, hold_onTree]
      split
      · exact Option.map_map ..
      · rfl

/-- What several teardowns in one context do: the other contexts stay as they are or are
    gone, the context has lost the scopes or is gone, `new` has run and is owed no more, and
    the contexts that `new` drops are gone. -/
structure Razes (k : ContextId) (scopes : List Index) (l l' : Ledger) (new : List (Due Release)) :
    Prop where
  count : l'.count = l.count
  other : ∀ j h, j ≠ k → l'.hold j = some h → l.hold j = some h
  own : ∀ h', l'.hold k = some h' →
    ∃ h, l.hold k = some h ∧ h' = { h with tree := h.tree.raze scopes }
  ran : l'.ran = new ++ l.ran
  owed : (new ++ l'.owed).Perm l.owed
  victims : ∀ d ∈ new, ∀ label victim, d.release = .dropContext label victim →
    l'.hold victim = none

theorem owed_onTree (hl : l.Sound) (k : ContextId) (s : Index) :
    (dueOf (l.answer k).tree s ++ (l.onTree k fun t => (t.destroy s).2).owed).Perm l.owed := by
  rcases hk : l.hold k with _ | h
  · have hsame : (l.onTree k fun t => (t.destroy s).2) = l := onHold_eq_self fun x hx => by
      rw [hk] at hx; cases hx
    rw [hsame, answer, hk, Option.getD_none, dueOf_new]
    exact .rfl
  · obtain ⟨f, hf⟩ := hl.shows k h hk
    have hself : (l.onTree k fun t => (t.destroy s).2).hold k =
        some { h with tree := (h.tree.destroy s).2 } := by rw [hold_onTree, if_pos rfl, hk]; rfl
    have hupdate : (l.dues k ++ (l.onTree k fun t => (t.destroy s).2).owed).Perm
        ((l.onTree k fun t => (t.destroy s).2).dues k ++ l.owed) :=
      owed_update rfl (hl.lt k h hk) fun j hj => by rw [hold_onTree, if_neg hj]
    rw [dues_of_hold hk, dues_of_hold hself] at hupdate
    rw [answer_of_hold hk]
    refine List.perm_iff_count.2 fun d => ?_
    have hd := hupdate.count_eq d
    have hdestroy := (hf.dueOf_destroy s).count_eq d
    simp only [List.count_append] at hd hdestroy ⊢
    omega

theorem razes_destroy (hl : l.Sound) (k : ContextId) (s : Index) :
    ∃ new, Razes k [s] l (l.destroy k s) new := by
  obtain ⟨new, hnew⟩ := spends_releaseAll (dropsWithin_drop _) (dueOf (l.answer k).tree s)
    (hl.onHold k (.destroy s)) (Nat.le_refl _)
  refine ⟨new, hnew.outlasts.count, fun j h hj hh => ?_, fun h' hh' => ?_, hnew.ran,
    hnew.owed.trans (owed_onTree hl k s), hnew.victims⟩
  · have hj' := hnew.outlasts.hold j h hh
    rwa [hold_onHold, if_neg hj] at hj'
  · have hk' := hnew.outlasts.hold k h' hh'
    rw [hold_onHold, if_pos rfl] at hk'
    obtain ⟨h, hk, rfl⟩ := Option.map_eq_some_iff.1 hk'
    exact ⟨h, hk, rfl⟩

theorem Razes.gone (h : Razes k scopes l l' new) (hj : l.hold j = none) : l'.hold j = none := by
  rw [Option.eq_none_iff_forall_ne_some]
  intro x hx
  by_cases hjk : j = k
  · subst hjk
    obtain ⟨y, hy, -⟩ := h.own x hx
    rw [hj] at hy; cases hy
  · rw [h.other j x hjk hx] at hj; cases hj

theorem Razes.trans (h : Razes k scopes l l₁ new) (h' : Razes k scopes' l₁ l₂ new') :
    Razes k (scopes ++ scopes') l l₂ (new' ++ new) where
  count := h'.count.trans h.count
  other j x hj hx := h.other j x hj (h'.other j x hj hx)
  own x hx := by
    obtain ⟨y, hy, rfl⟩ := h'.own x hx
    obtain ⟨z, hz, rfl⟩ := h.own y hy
    exact ⟨z, hz, by rw [Tree.raze, Tree.raze, Tree.raze, List.foldl_append]⟩
  ran := by rw [h'.ran, h.ran, List.append_assoc]
  owed := by
    refine List.perm_iff_count.2 fun d => ?_
    have hd := h.owed.count_eq d
    have hd' := h'.owed.count_eq d
    simp only [List.count_append] at hd hd' ⊢
    omega
  victims d hd label victim hv := by
    rcases List.mem_append.1 hd with hd | hd
    · exact h'.victims d hd label victim hv
    · exact h'.gone (h.victims d hd label victim hv)

theorem razes_destroyAll (hl : l.Sound) (k : ContextId) (scopes : List Index) :
    ∃ new, Razes k scopes l (l.destroyAll k scopes) new := by
  induction scopes generalizing l with
  | nil => exact ⟨[], rfl, fun _ _ _ h => h, fun h hh => ⟨h, hh, rfl⟩, rfl, .rfl, fun _ hd => by cases hd⟩
  | cons s scopes ih =>
    obtain ⟨new, hnew⟩ := razes_destroy hl k s
    obtain ⟨new', hnew'⟩ := ih (hl.step (.change k (.destroy s)))
    exact ⟨_, hnew.trans hnew'⟩

theorem Razes.count_dues_le (h : Razes k scopes l l' new) (hl : l.Sound) (j : ContextId)
    (d : Due Release) : (l'.dues j).count d ≤ (l.dues j).count d := by
  rcases hj : l'.hold j with _ | x
  · rw [dues_of_none hj]
    exact Nat.zero_le _
  · rw [dues_of_hold hj]
    by_cases hjk : j = k
    · subst hjk
      obtain ⟨y, hy, rfl⟩ := h.own x hj
      obtain ⟨f, hf⟩ := hl.shows j y hy
      rw [dues_of_hold hy]
      exact (hf.dueOf_raze scopes).count_le d
    · rw [dues_of_hold (h.other j x hjk hj)]

/-- What a context owed and does not owe any more has run. -/
theorem Razes.mem_new (h : Razes k scopes l l' new) (hl : l.Sound) (hd : d ∈ l.dues i)
    (hd' : d ∉ l'.dues i) : d ∈ new := by
  have hi : i < l.count := by
    rcases hx : l.hold i with _ | x
    · rw [dues_of_none hx] at hd; cases hd
    · exact hl.lt i x hx
  have hlt : l'.owed.count d < l.owed.count d := by
    rw [Ledger.owed, Ledger.owed, h.count, List.count_flatMap, List.count_flatMap]
    refine List.sum_lt_sum _ _ (fun j _ => h.count_dues_le hl j d) ⟨i, List.mem_range.2 hi, ?_⟩
    rw [Function.comp_apply, Function.comp_apply, List.count_eq_zero_of_not_mem hd']
    exact List.count_pos_iff.2 hd
  have hcount := h.owed.count_eq d
  rw [List.count_append] at hcount
  exact List.count_pos_iff.1 (by omega)

/-- What was due within a scope that was torn down has run. -/
theorem Razes.mem_new_of_due (h : Razes k scopes l l' new) (hl : l.Sound) {x : Hold}
    (hk : l.hold k = some x) (hs : s ∈ scopes) (hd : d ∈ dueOf x.tree s) : d ∈ new := by
  obtain ⟨f, hf⟩ := hl.shows k x hk
  obtain ⟨o, ho, hin⟩ := hf.mem_dueOf_iff.1 hd
  refine h.mem_new hl (i := k) ?_ ?_
  · rw [dues_of_hold hk]
    exact hf.mem_dueOf_iff.2 ⟨o, ho, hf.isWithin_top (hf.isScope_owner ho)⟩
  · rcases hk' : l'.hold k with _ | y
    · rw [dues_of_none hk']
      exact List.not_mem_nil
    · obtain ⟨z, hz, rfl⟩ := h.own y hk'
      rw [hk] at hz; cases hz
      rw [dues_of_hold hk', (hf.raze scopes).1.mem_dueOf_iff]
      rintro ⟨o', ho', -⟩
      have hsame := (hf.razed scopes).record _ _ _ ho'
      rw [ho] at hsame; cases hsame
      exact hf.not_within_of_raze hs ho' hin

/-! ## In any order -/

/-- What is alive after teardowns in one order is what is alive after them in another. -/
theorem hold_of_perm (hl : l.Sound) (hp : scopes.Perm scopes')
    (h : Razes k scopes' l l' new) {x : Hold} (hj : l'.hold j = some x) :
    (l.destroyAll k scopes).hold j = (l.onTree k fun t => t.raze scopes).hold j := by
  have hclosed : l.Closed (fun i => l'.hold i = none) (· ∈ new) := by
    refine ⟨h.victims, fun i hi d hd => h.mem_new hl hd ?_⟩
    rw [dues_of_none hi]
    exact List.not_mem_nil
  refine hold_destroyAll hl hclosed (fun y hy s hs d hd => ?_) (by rw [hj]; simp)
  exact h.mem_new_of_due hl hy (hp.mem_iff.1 hs) hd

/-- Teardowns in one context, in one order and in another: the same contexts are left, with
    the same nodes, and the same releases have run. -/
theorem destroyAll_perm (hl : l.Sound) (hp : scopes.Perm scopes') (k : ContextId) :
    (∀ j, j ≠ k → (l.destroyAll k scopes).hold j = (l.destroyAll k scopes').hold j) ∧
      Option.Rel Hold.Same ((l.destroyAll k scopes).hold k) ((l.destroyAll k scopes').hold k) ∧
      ∃ new new', (l.destroyAll k scopes).ran = new ++ l.ran ∧
        (l.destroyAll k scopes').ran = new' ++ l.ran ∧ new.Perm new' ∧
          (new ++ (l.destroyAll k scopes).owed).Perm l.owed := by
  obtain ⟨new, h⟩ := razes_destroyAll hl k scopes
  obtain ⟨new', h'⟩ := razes_destroyAll hl k scopes'
  have hleft : ∀ {j x}, (l.destroyAll k scopes').hold j = some x → _ := hold_of_perm hl hp h'
  have hleft' : ∀ {j x}, (l.destroyAll k scopes).hold j = some x → _ := hold_of_perm hl hp.symm h
  generalize l.destroyAll k scopes = l₁ at h hleft hleft' ⊢
  generalize l.destroyAll k scopes' = l₂ at h' hleft hleft' ⊢
  have hother : ∀ j, j ≠ k → l₁.hold j = l₂.hold j := by
    intro j hj
    rcases h₁ : l₁.hold j with _ | x
    · rcases h₂ : l₂.hold j with _ | y
      · rfl
      · have hy := hleft h₂
        rw [hold_onTree, if_neg hj, h₁, h'.other j y hj h₂] at hy
        cases hy
    · rw [hleft' h₁, hold_onTree, if_neg hj, h.other j x hj h₁]
  have hown : (l₁.hold k = none ∧ l₂.hold k = none) ∨ ∃ x, l.hold k = some x ∧
      l₁.hold k = some { x with tree := x.tree.raze scopes } ∧
        l₂.hold k = some { x with tree := x.tree.raze scopes' } := by
    rcases h₁ : l₁.hold k with _ | x
    · rcases h₂ : l₂.hold k with _ | y
      · exact .inl ⟨rfl, rfl⟩
      · obtain ⟨z, hz, -⟩ := h'.own y h₂
        have hy := hleft h₂
        rw [hold_onTree, if_pos rfl, h₁, hz] at hy
        cases hy
    · obtain ⟨z, hz, rfl⟩ := h.own x h₁
      refine .inr ⟨z, hz, rfl, ?_⟩
      rw [hleft' h₁, hold_onTree, if_pos rfl, hz]
      rfl
  have hsame : Option.Rel Hold.Same (l₁.hold k) (l₂.hold k) ∧ l₁.dues k = l₂.dues k := by
    rcases hown with ⟨h₁, h₂⟩ | ⟨x, hx, h₁, h₂⟩
    · rw [dues_of_none h₁, dues_of_none h₂, h₁, h₂]
      exact ⟨.none, rfl⟩
    · obtain ⟨f, hf⟩ := hl.shows k x hx
      obtain ⟨hnodes, htop, hcurrent, hdues⟩ := hf.raze_perm hp
      rw [dues_of_hold h₁, dues_of_hold h₂, h₁, h₂]
      exact ⟨.some ⟨hnodes, htop, hcurrent, rfl⟩, hdues⟩
  refine ⟨hother, hsame.1, new, new', h.ran, h'.ran, ?_, h.owed⟩
  have howed : l₁.owed = l₂.owed := by
    rw [owed, owed, h.count, h'.count]
    refine List.flatMap_congr fun j _ => ?_
    by_cases hj : j = k
    · rw [hj, hsame.2]
    · rw [dues, dues, hother j hj]
  have hperm := h.owed.trans h'.owed.symm
  rwa [howed, List.perm_append_right_iff] at hperm

end Ledger

/-! ## Runs -/

variable {w : World} {k : ContextId} {scopes scopes' : List Index}

namespace Run

/-- Tears several scopes of a context down, one after the other. -/
def destroyAll (k : ContextId) (scopes : List Index) : Run Unit :=
  scopes.forM fun s => do
    let _ ← destroyScope k s

theorem settles_destroyAll (k : ContextId) :
    ∀ scopes : List Index, Settles (destroyAll k scopes) (·.destroyAll k scopes)
  | [] => settles_pure _
  | s :: scopes => ((settles_destroyScope k s).after fun _ => settles_pure ()).bind fun _ =>
      settles_destroyAll k scopes

theorem suffix_destroyAll (k : ContextId) (scopes : List Index) (l : Ledger) :
    l.ran <:+ (l.destroyAll k scopes).ran := by
  induction scopes generalizing l with
  | nil => exact List.suffix_refl _
  | cons s scopes ih => exact (Ledger.suffix_destroy k s l).trans (ih _)

theorem follows_destroyAll (k : ContextId) :
    ∀ scopes : List Index, Follows (destroyAll k scopes) (·.destroyAll k scopes)
  | [] => (gentle_pure ()).follows fun _ => rfl
  | s :: scopes =>
    ((follows_destroyScope k s).then (settles_destroyScope k s) (Ledger.suffix_destroy k s)
      fun _ => gentle_pure ()).bind ((settles_destroyScope k s).after fun _ => settles_pure ())
        (fun _ => follows_destroyAll k scopes) (Ledger.suffix_destroy k s)
        (suffix_destroyAll k scopes)

/-- Whether teardowns end the process is what their releases do in sequence. -/
theorem destroyAll_abort_iff {new : List (Due Release)}
    (hnew : (w.ledger.destroyAll k scopes).ran = new ++ w.ledger.ran) :
    ((destroyAll k scopes).exec w).1 = .error .abort ↔ w.surroundings.afterAll new = none := by
  have hagree := follows_destroyAll k scopes w w new.reverse (.refl w)
    (by rw [List.reverse_reverse]; exact hnew)
  have hends := endsAs_inSequence new.reverse w
  rw [w.surroundings.afterAll_perm (List.reverse_perm new)] at hends
  rw [hagree.abort]
  rcases hx : w.surroundings.afterAll new with _ | x <;> rw [hx] at hends
  · exact iff_of_true hends rfl
  · exact iff_of_false (ne_abort_of_ok hends.1) (by simp)

end Run

/-- Two worlds that teardowns in a context lead to: the other contexts own the same, the
    context owns the same but for the bookkeeping of its store or is gone in both, and the
    same releases have run since.  Those that have run and those that are still owed are
    together those that were owed before, by each context once for each of its records. -/
structure World.Reordered (w : World) (k : ContextId) (w₁ w₂ : World) : Prop where
  others : ∀ j, j ≠ k → w₁.ledger.hold j = w₂.ledger.hold j
  own : Option.Rel Hold.Same (w₁.ledger.hold k) (w₂.ledger.hold k)
  ran : ∃ new new', w₁.journal.ran = new ++ w.journal.ran ∧ w₂.journal.ran = new' ++ w.journal.ran ∧
    new.Perm new' ∧ (new ++ w₁.ledger.owed).Perm w.ledger.owed
  once : ∀ j, ((w.ledger.dues j).map (·.record)).Nodup

/-- Scopes of a context that are torn down in one order and in another: either both end the
    process, or they lead to the same nodes with the same children, to the same current
    scope, and to the same releases that have run. -/
theorem teardowns_commute (hw : Reachable w) (k : ContextId) (hp : scopes.Perm scopes') :
    (((Run.destroyAll k scopes).exec w).1 = .error .abort ∧
        ((Run.destroyAll k scopes').exec w).1 = .error .abort) ∨
      ∃ w₁ w₂, (Run.destroyAll k scopes).exec w = (.ok (), w₁) ∧
        (Run.destroyAll k scopes').exec w = (.ok (), w₂) ∧ w.Reordered k w₁ w₂ := by
  obtain ⟨hothers, hown, new, new', hran, hran', hnew, howed⟩ :=
    Ledger.destroyAll_perm hw.sound hp k
  have habort := Run.destroyAll_abort_iff hran
  have habort' := Run.destroyAll_abort_iff hran'
  rw [w.surroundings.afterAll_perm hnew, ← habort'] at habort
  rcases Run.settles_destroyAll k scopes w with h | ⟨⟨⟨⟩, h⟩, hl⟩
  · exact .inl ⟨h, habort.1 h⟩
  rcases Run.settles_destroyAll k scopes' w with h' | ⟨⟨⟨⟩, h'⟩, hl'⟩
  · exact .inl ⟨habort.2 h', h'⟩
  dsimp only at hl hl'
  refine .inr ⟨_, _, Prod.ext h rfl, Prod.ext h' rfl, ?_⟩
  rw [← hl, ← hl'] at hothers hown
  rw [← hl] at hran howed
  rw [← hl'] at hran'
  exact ⟨hothers, hown, ⟨new, new', hran, hran', hnew, howed⟩, Ledger.nodup_dues hw.sound⟩

/-- Two scopes next to each other, with a committed record in each, and the second scope is
    current. -/
def sideBySide : Run Unit := do
  let k ← Run.newContext "example"
  let _ ← Run.pushScope k
  Run.defer k (.note "first" false)
  let _ ← Run.popScope k
  let _ ← Run.pushScope k
  Run.defer k (.note "second" false)

theorem reachable_sideBySide : Reachable (sideBySide.exec .start).2 := by
  have hcomposed : Composed sideBySide :=
    Run.composed_bind (Run.composed_newContext _) fun k =>
      Run.composed_bind (Run.composed_pushScope k) fun _ =>
        Run.composed_bind (Run.composed_defer k _) fun _ =>
          Run.composed_bind (Run.composed_popScope k) fun _ =>
            Run.composed_bind (Run.composed_pushScope k) fun _ => Run.composed_defer k _
  have hexec : sideBySide.exec .start = (.ok (), (sideBySide.exec .start).2) := rfl
  obtain ⟨steps, hsteps⟩ := hcomposed _ _ _ hexec (by simp)
  exact ⟨_, _, _, _, _, steps, _, hsteps, by simp⟩

/-- The theorem above for two scopes, whose releases do run in another order. -/
theorem teardowns_commute_sideBySide : ∃ w w₁ w₂, Reachable w ∧
    (Run.destroyAll 0 [⟨0, 1, 0⟩, ⟨0, 3, 0⟩]).exec w = (.ok (), w₁) ∧
    (Run.destroyAll 0 [⟨0, 3, 0⟩, ⟨0, 1, 0⟩]).exec w = (.ok (), w₂) ∧ w.Reordered 0 w₁ w₂ ∧
      w₁.journal.labels = ["first", "second"] ∧ w₂.journal.labels = ["second", "first"] := by
  have hlabels : ((Run.destroyAll 0 [⟨0, 1, 0⟩, ⟨0, 3, 0⟩]).exec
      (sideBySide.exec .start).2).2.journal.labels = ["first", "second"] := by decide +kernel
  have hlabels' : ((Run.destroyAll 0 [⟨0, 3, 0⟩, ⟨0, 1, 0⟩]).exec
      (sideBySide.exec .start).2).2.journal.labels = ["second", "first"] := by decide +kernel
  have hok : ((Run.destroyAll 0 [⟨0, 1, 0⟩, ⟨0, 3, 0⟩]).exec
      (sideBySide.exec .start).2).1 ≠ .error .abort := by decide +kernel
  rcases teardowns_commute reachable_sideBySide 0 (List.Perm.swap ⟨0, 3, 0⟩ ⟨0, 1, 0⟩ []) with
    ⟨h, -⟩ | ⟨w₁, w₂, h₁, h₂, h⟩
  · exact absurd h hok
  · rw [h₁] at hlabels
    rw [h₂] at hlabels'
    exact ⟨_, w₁, w₂, reachable_sideBySide, h₁, h₂, h, hlabels, hlabels'⟩

end ScopedResources
