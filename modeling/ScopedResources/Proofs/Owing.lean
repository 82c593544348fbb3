/-
  What is owed.

  A context that is alive owes the releases that wait on its records.  Running releases
  spends what was due and what the contexts owed that it drops, and no more: what has run
  afterwards and what is still owed is what had run, what was due and what was owed.

  * `Ledger.dues`, `Ledger.owed`: what one context owes, and what all do.
  * `Ledger.Spends`: what running releases does to what is owed.  A release that drops a
    context finds it gone in the end, however deep it was nested (`DropsWithin`): each drop
    leaves one context less, and as many drops may nest as there are contexts.
  * `Ledger.spends_releaseAll`, `Ledger.spends_drop`
-/
import ScopedResources.Proofs.Invariant

namespace ScopedResources

/-- When the top scope is torn down, all releases of the tree are due. -/
theorem Tree.Shows.dueOf_top {t : Tree Release} {f : Forest Release} (h : t.Shows f) :
    Ledger.dueOf t t.top = f.due := by
  obtain ⟨g, hg⟩ := Forest.exists_below? h.top_mem
  obtain ⟨u, hrun, -⟩ := h.destroy_top hg
  rw [Ledger.dueOf, hrun, h.eq_top hg, Forest.due, Forest.due, List.append_nil]
  rfl

namespace Ledger

variable {l l' l'' : Ledger} {k j : ContextId} {h : Hold} {d : Due Release} {b : Nat}
  {due due' new new' : List (Due Release)}

/-! ## What is owed -/

/-- The releases that a context runs when it is dropped. -/
def dues (l : Ledger) (k : ContextId) : List (Due Release) :=
  (l.hold k).elim [] fun h => dueOf h.tree h.tree.top

/-- The releases that the contexts that are alive are still to run. -/
def owed (l : Ledger) : List (Due Release) :=
  (List.range l.count).flatMap l.dues

theorem dues_of_hold (hk : l.hold k = some h) : l.dues k = dueOf h.tree h.tree.top := by
  rw [dues, hk]; rfl

theorem dues_of_none (hk : l.hold k = none) : l.dues k = [] := by
  rw [dues, hk]; rfl

/-- A context owes the release of a record once. -/
theorem nodup_dues (hl : l.Sound) (k : ContextId) : ((l.dues k).map (·.record)).Nodup := by
  rcases hk : l.hold k with _ | h
  · rw [dues_of_none hk]
    exact List.nodup_nil
  · obtain ⟨f, hf⟩ := hl.shows k h hk
    rw [dues_of_hold hk, hf.dueOf_top]
    exact hf.nodup.sublist ((Forest.due_sublist f).trans (Forest.records_sublist f))

theorem flatMap_range_congr {α : Type} {f g : Nat → List α} {n k : Nat} (hk : k < n)
    (h : ∀ j, j ≠ k → f j = g j) :
    (g k ++ (List.range n).flatMap f).Perm (f k ++ (List.range n).flatMap g) := by
  obtain ⟨pre, post, hsplit⟩ := List.append_of_mem (List.mem_range.2 hk)
  have hn : (pre ++ k :: post).Nodup := hsplit ▸ List.nodup_range
  rw [List.nodup_append, List.nodup_cons] at hn
  obtain ⟨-, ⟨hpost, -⟩, hpre⟩ := hn
  have hrest : ∀ {m : List Nat}, k ∉ m → m.flatMap f = m.flatMap g := fun hm =>
    List.flatMap_congr fun j hj => h j fun he => hm (he ▸ hj)
  rw [hsplit, List.flatMap_append, List.flatMap_append, List.flatMap_cons, List.flatMap_cons,
    hrest hpost, hrest fun hm => hpre k hm k (List.mem_cons_self ..) rfl]
  exact (List.perm_append_comm_assoc _ _ _).trans
    ((List.perm_append_comm_assoc _ _ _).append_left _ |>.trans (List.perm_append_comm_assoc _ _ _))

/-- What is owed, when what one context owns changes. -/
theorem owed_update (hc : l'.count = l.count) (hk : k < l.count)
    (hother : ∀ j, j ≠ k → l'.hold j = l.hold j) :
    (l.dues k ++ l'.owed).Perm (l'.dues k ++ l.owed) := by
  rw [owed, owed, hc]
  exact flatMap_range_congr hk fun j hj => by rw [dues, dues, hother j hj]

/-! ## How many contexts are alive -/

def alive (l : Ledger) : Nat :=
  (List.range l.count).countP fun k => (l.hold k).isSome

theorem alive_le (l : Ledger) : l.alive ≤ l.count := by
  have h := List.countP_le_length (p := fun k => (l.hold k).isSome) (l := List.range l.count)
  rwa [List.length_range] at h

theorem Outlasts.alive_le (h : Outlasts l l') : l'.alive ≤ l.alive := by
  rw [alive, alive, h.count]
  refine List.countP_mono_left fun k _ hk => ?_
  obtain ⟨x, hx⟩ := Option.isSome_iff_exists.1 hk
  rw [h.hold k x hx]
  rfl

theorem hold_of_alive_eq_zero (hl : l.Sound) (h : l.alive = 0) (k : ContextId) :
    l.hold k = none := by
  rw [Option.eq_none_iff_forall_ne_some]
  intro x hx
  exact List.countP_eq_zero.1 h k (List.mem_range.2 (hl.lt k x hx)) (by rw [hx]; rfl)

theorem countP_range_congr {p q : Nat → Bool} {n k : Nat} (hk : k < n) (h : ∀ j, j ≠ k → p j = q j) :
    (List.range n).countP p + (q k).toNat = (List.range n).countP q + (p k).toNat := by
  induction n with
  | zero => omega
  | succ n ih =>
    have hone : ∀ r : Nat → Bool, List.countP r [n] = (r n).toNat := by
      intro r
      rw [List.countP_singleton]; cases r n <;> rfl
    rw [List.range_succ, List.countP_append, List.countP_append, hone, hone]
    by_cases hkn : k = n
    · subst hkn
      have hpq : (List.range k).countP p = (List.range k).countP q :=
        List.countP_congr fun j hj => by rw [h j (Nat.ne_of_lt (List.mem_range.1 hj))]
      rw [hpq]
      omega
    · have := ih (by omega)
      rw [h n (Ne.symm hkn)]
      omega

theorem alive_take (hl : l.Sound) (hk : l.hold k = some h) : (l.take k).alive < l.alive := by
  have hupdate : (l.take k).alive + (l.hold k).isSome.toNat =
      l.alive + ((l.take k).hold k).isSome.toNat :=
    countP_range_congr (p := fun j => ((l.take k).hold j).isSome) (q := fun j => (l.hold j).isSome)
      (hl.lt k h hk) fun j hj => by rw [hold_take, if_neg hj]
  rw [hk, hold_take, if_pos rfl, Option.isSome_some, Option.isSome_none, Bool.toNat_true,
    Bool.toNat_false] at hupdate
  omega

/-! ## Running what is due -/

/-- What running releases does to what is owed: `new` has run, which was due or was owed and
    is no more, and the contexts that `new` drops are gone. -/
structure Spends (l : Ledger) (due : List (Due Release)) (l' : Ledger)
    (new : List (Due Release)) : Prop where
  outlasts : Outlasts l l'
  ran : l'.ran = new ++ l.ran
  owed : (new ++ l'.owed).Perm (due ++ l.owed)
  victims : ∀ d ∈ new, ∀ label victim, d.release = .dropContext label victim →
    l'.hold victim = none

theorem Outlasts.gone (h : Outlasts l l') (hk : l.hold k = none) : l'.hold k = none := by
  rw [Option.eq_none_iff_forall_ne_some]
  intro x hx
  rw [h.hold k x hx] at hk
  cases hk

theorem Spends.trans (h : Spends l due l' new) (h' : Spends l' due' l'' new') :
    Spends l (due ++ due') l'' (new' ++ new) where
  outlasts := h.outlasts.trans h'.outlasts
  ran := by rw [h'.ran, h.ran, List.append_assoc]
  owed := by
    refine List.perm_iff_count.2 fun d => ?_
    have hd := h.owed.count_eq d
    have hd' := h'.owed.count_eq d
    simp only [List.count_append] at hd hd' ⊢
    omega
  victims d hd label victim hv := by
    rcases List.mem_append.1 hd with hd | hd
    · exact h'.victims d hd label victim hv
    · exact h'.outlasts.gone (h.victims d hd label victim hv)

theorem spends_self (l : Ledger) : Spends l [] l [] :=
  ⟨.refl l, rfl, .rfl, fun _ hd => by cases hd⟩

/-- A release that drops no context is only noted. -/
theorem spends_note (l : Ledger) (hd : ∀ label victim, d.release ≠ .dropContext label victim) :
    Spends l [d] (l.note d) [d] where
  outlasts := outlasts_note l d
  ran := rfl
  owed := .rfl
  victims e he label victim hv := by
    rw [List.mem_singleton] at he
    exact absurd (he ▸ hv) (hd label victim)

/-- A context that is taken out makes due what it owes. -/
theorem owed_take (hl : l.Sound) (hk : l.hold k = some h) :
    (l.dues k ++ (l.take k).owed).Perm l.owed := by
  have hself : (l.take k).dues k = [] := dues_of_none (by rw [hold_take, if_pos rfl])
  have hupdate : (l.dues k ++ (l.take k).owed).Perm ((l.take k).dues k ++ l.owed) :=
    owed_update rfl (hl.lt k h hk) fun j hj => by rw [hold_take, if_neg hj]
  rwa [hself] at hupdate

/-- Dropping ends a context and spends what it owes, if at most `b` contexts are alive. -/
def DropsWithin (b : Nat) (drop : ContextId → Ledger → Ledger) : Prop :=
  ∀ k l, l.Sound → l.alive ≤ b → (drop k l).hold k = none ∧ ∃ new, Spends l [] (drop k l) new

section

variable {drop : ContextId → Ledger → Ledger}

theorem spends_release (hd : DropsWithin b drop) (d : Due Release) (hl : l.Sound)
    (hb : l.alive ≤ b) : ∃ new, Spends l [d] (release drop d l) new := by
  unfold release
  split
  · rename_i label victim hdrop
    have hnote := outlasts_note l d
    obtain ⟨hgone, new, hnew⟩ := hd victim (l.note d) (hl.of_outlasts hnote) (hnote.alive_le.trans hb)
    refine ⟨new ++ [d], hnote.trans hnew.outlasts, ?_, ?_, fun e he label' victim' hv => ?_⟩
    · rw [hnew.ran, List.append_assoc]
      rfl
    · have howed : (l.note d).owed = l.owed := rfl
      refine List.perm_iff_count.2 fun e => ?_
      have he := hnew.owed.count_eq e
      simp only [List.count_append, List.count_nil, howed] at he ⊢
      omega
    · rcases List.mem_append.1 he with he | he
      · exact hnew.victims e he label' victim' hv
      · rw [List.mem_singleton] at he
        subst he
        rw [hdrop] at hv; cases hv
        exact hgone
  all_goals exact ⟨[d], spends_note l fun label victim hv => by simp_all⟩

theorem spends_releaseAll (hd : DropsWithin b drop) : ∀ (due : List (Due Release)) {l : Ledger},
    l.Sound → l.alive ≤ b → ∃ new, Spends l due (releaseAll drop due l) new
  | [], l, _, _ => ⟨[], spends_self l⟩
  | d :: more, l, hl, hb => by
    obtain ⟨new, hnew⟩ := spends_release hd d hl hb
    obtain ⟨new', hnew'⟩ := spends_releaseAll hd more (hl.of_outlasts hnew.outlasts)
      (hnew.outlasts.alive_le.trans hb)
    exact ⟨_, hnew.trans hnew'⟩

end

theorem dropsWithin_dropWithin : ∀ b : Nat, DropsWithin b (dropWithin b)
  | 0, k, l, hl, hb =>
    ⟨hold_of_alive_eq_zero hl (Nat.le_zero.1 hb) k, [], spends_self l⟩
  | b + 1, k, l, hl, hb => by
    rw [dropWithin]
    split
    · rename_i h hk
      have htake := outlasts_take l k
      have hlt := alive_take hl hk
      obtain ⟨new, hnew⟩ := spends_releaseAll (dropsWithin_dropWithin b)
        (dueOf h.tree h.tree.top) (hl.of_outlasts htake) (by omega)
      refine ⟨hnew.outlasts.gone (by rw [hold_take, if_pos rfl]), new,
        htake.trans hnew.outlasts, hnew.ran, ?_, hnew.victims⟩
      rw [← dues_of_hold hk] at hnew ⊢
      exact hnew.owed.trans (owed_take hl hk)
    · rename_i hk
      exact ⟨hk, [], spends_self l⟩

theorem dropsWithin_drop (b : Nat) : DropsWithin b drop := fun k l hl _ =>
  dropsWithin_dropWithin l.count k l hl l.alive_le

theorem spends_drop (k : ContextId) (hl : l.Sound) : ∃ new, Spends l [] (drop k l) new :=
  (dropsWithin_drop l.alive k l hl (Nat.le_refl _)).2

end Ledger

end ScopedResources
