/-
  Releases one after the other.

  The releases of an operation run at several depths: those of a context that is dropped
  run in the middle of those that dropped it.  What they do outside of contexts, and
  whether they end the process, is what the same releases do by themselves, in the same
  order.

  * `World.Alike`: two worlds that differ at most in contexts, in messages and in the log.
  * `Run.inSequence` runs some releases one after the other, and `World.after` is the
    world that they leave.
  * `Run.Follows`: a run does what the releases that it runs do in sequence;
    `follows_destroyScope`, `follows_dropContext`, `follows_commit`, `follows_leaveCall`
    say so of the operations that run any.
-/
import ScopedResources.Proofs.Releasing

namespace ScopedResources

variable {α β γ : Type} {w w' v v' : World} {k : ContextId} {d : Due Release}
  {due more : List (Due Release)}

/-- Two worlds that differ at most in contexts, in messages and in the log. -/
structure World.Alike (w v : World) : Prop where
  locks : v.locks = w.locks
  host : v.host = { w.host with error := v.host.error }
  ran : v.journal.ran = w.journal.ran

namespace World

theorem Alike.refl (w : World) : w.Alike w :=
  ⟨rfl, rfl, rfl⟩

theorem Alike.symm (h : w.Alike v) : v.Alike w where
  locks := h.locks.symm
  host := by rw [h.host]
  ran := h.ran.symm

theorem Alike.trans {u : World} (h : w.Alike v) (h' : v.Alike u) : w.Alike u where
  locks := h'.locks.trans h.locks
  host := by rw [h'.host, h.host]
  ran := h'.ran.trans h.ran

theorem Quiet.alike (h : w.Quiet w') : w.Alike w' :=
  ⟨h.locks, h.host, h.ran⟩

theorem Alike.note (h : w.Alike v) (d : Due Release) : (w.note d).Alike (v.note d) :=
  ⟨h.locks, h.host, congrArg (d :: ·) h.ran⟩

theorem Alike.isOpen (h : w.Alike v) (fd : Int) : v.host.isOpen fd = w.host.isOpen fd := by
  rw [h.host]
  rfl

end World

/-! ## Calls to the host -/

namespace Host

/-- A call that does not look at the error output. -/
def Call.Blind (call : Call α) : Prop :=
  ∀ (h : Host) (error : Sink),
    call.exec { h with error } = ((call.exec h).1, { (call.exec h).2 with error })

theorem Call.Blind.bind {x : Call α} {f : α → Call β} (hx : x.Blind) (hf : ∀ a, (f a).Blind) :
    (x >>= f).Blind := by
  intro h error
  rw [exec_bind, exec_bind, hx h error]
  rcases x.exec h with ⟨e | a, h'⟩
  · rfl
  · exact hf a h' error

theorem blind_close (fd : Int) : (close fd).Blind := by
  intro h error
  rw [exec_close, exec_close]
  show (if h.isOpen fd = true then _ else _) = _
  split <;> rfl

theorem exec_opened_eq (fd : Int) (h : Host) :
    (opened fd).exec h =
      (((h.descriptor? fd).bind fun d => (h.openFiles[d.openFile]?).map (d.openFile, ·)).elim
        (.error Errno.badDescriptor) .ok, h) := by
  rw [opened, exec_get_bind]
  rcases h.descriptor? fd with _ | d
  · rfl
  · rcases hf : h.openFiles[d.openFile]? with _ | file <;> simp only [hf, Option.bind] <;> rfl

theorem blind_opened (fd : Int) : (opened fd).Blind := by
  intro h error
  rw [exec_opened_eq, exec_opened_eq]
  rfl

theorem blind_unlock (fd : Int) : (unlock fd).Blind :=
  (blind_opened fd).bind fun _ _ _ => rfl

end Host

namespace Run

/-! ## Runs in worlds that are alike -/

/-- Two runs that end in the same way in worlds that are alike, and leave such worlds. -/
def Matches (x y : Run α) : Prop :=
  ∀ w v : World, w.Alike v → (y.exec v).1 = (x.exec w).1 ∧ (x.exec w).2.Alike (y.exec v).2

theorem matches_pure (a : α) : Matches (pure a : Run α) (pure a) := fun _ _ h => ⟨rfl, h⟩

theorem matches_throw (e : Stop) : Matches (throw e : Run α) (throw e) := fun _ _ h => ⟨rfl, h⟩

theorem Matches.bind {x y : Run α} {f g : α → Run β} (hx : Matches x y)
    (hf : ∀ a, Matches (f a) (g a)) : Matches (x >>= f) (y >>= g) := by
  intro w v h
  obtain ⟨hr, hw⟩ := hx w v h
  rw [exec_bind, exec_bind]
  rcases hx' : x.exec w with ⟨e | a, w'⟩ <;> rcases hy' : y.exec v with ⟨e' | a', v'⟩ <;>
    rw [hx', hy'] at hr hw
  · cases hr
    exact ⟨rfl, hw⟩
  · cases hr
  · cases hr
  · cases hr
    exact hf a w' v' hw

theorem matches_modify {f g : World → World} (hf : ∀ w v : World, w.Alike v → (f w).Alike (g v)) :
    Matches (modify f : Run Unit) (modify g) := fun w v h => ⟨rfl, hf w v h⟩

theorem matches_host {call : Host.Call α} (hc : call.Blind) : Matches (host call) (host call) := by
  intro w v h
  rw [exec_host, exec_host, h.host, hc]
  exact ⟨rfl, h.locks, rfl, h.ran⟩

theorem alike_record (w : World) (e : Event) : w.Alike (w.record e) :=
  ⟨(still_record w e).locks, w.host_record e, (still_record w e).ran⟩

theorem matches_log (e e' : Event) : Matches (log e) (log e') := fun w v h =>
  ⟨rfl, ((alike_record w e).symm.trans h).trans (alike_record v e')⟩

theorem matches_onContext (k j : ContextId) (f g : Context → Unit × Context) :
    Matches (onContext k f) (onContext j g) := fun w v h =>
  ⟨rfl, ((w.quiet_onContext k f).alike.symm.trans h).trans (v.quiet_onContext j g).alike⟩

/-! ### Releases -/

theorem matches_dropLock (lock : LockId) : Matches (dropLock lock) (dropLock lock) := by
  intro w v h
  rw [dropLock, exec_bind_ok (exec_get w), exec_bind_ok (exec_get v), h.locks]
  rcases w.locks[lock]? with _ | s
  · exact ⟨rfl, h⟩
  · refine Matches.bind (matches_modify fun w v h => ?_) (fun _ => ?_) w v h
    · exact ⟨by rw [h.locks], h.host, h.ran⟩
    · split
      · split
        · refine (matches_host (Host.blind_close _)).bind fun result => ?_
          split
          · exact matches_throw .abort
          · exact matches_pure ()
        · exact matches_pure ()
      · exact matches_pure ()

theorem matches_leaveLock (lock : LockId) : Matches (leaveLock lock) (leaveLock lock) := by
  intro w v h
  rw [leaveLock, exec_bind_ok (exec_get w), exec_bind_ok (exec_get v), h.locks]
  rcases w.locks[lock]? with _ | s
  · exact ⟨rfl, h⟩
  · refine Matches.bind (matches_modify fun w v h => ?_) (fun _ => ?_) w v h
    · exact ⟨by rw [h.locks], h.host, h.ran⟩
    · dsimp only
      split
      · split
        · exact (matches_host (Host.blind_unlock _)).bind fun _ => matches_dropLock lock
        · exact matches_dropLock lock
      · exact matches_dropLock lock

theorem matches_closeOwned (fd : Int) : Matches (closeOwned fd) (closeOwned fd) := by
  refine (matches_host (Host.blind_close fd)).bind fun result => ?_
  split
  · exact matches_pure ()
  · -- the descriptor may be shown under another name
    intro w v h
    rw [exec_bind_ok (show (describe fd).exec w = (.ok (w.describe fd), w) from rfl),
      exec_bind_ok (show (describe fd).exec v = (.ok (v.describe fd), v) from rfl)]
    exact (matches_log _ _).bind (fun _ => matches_throw .abort) w v h

/-- A release that drops no context does the same whatever context it is due in. -/
theorem matches_release {drop drop' : ContextId → Run Unit} (k j : ContextId)
    (hd : ∀ label victim, d.release ≠ .dropContext label victim) :
    Matches (release drop k d) (release drop' j d) := by
  refine (matches_modify fun w v h => h.note d).bind fun _ => ?_
  obtain ⟨i, r⟩ := d
  cases r with
  | note label panics =>
    dsimp only
    split
    · exact (matches_log _ _).bind fun _ => matches_throw .abort
    · exact matches_pure ()
  | dropContext label victim => exact absurd rfl (hd label victim)
  | close fd => exact matches_closeOwned fd
  | forget payload => exact matches_pure ()
  | restoreName previous =>
    exact matches_onContext k j _ _
  | leaveLock lock => exact matches_leaveLock lock

/-! ## Sequences -/

/-- Runs some releases one after the other; those that drop a context are only noted. -/
def inSequence (due : List (Due Release)) : Run Unit :=
  releaseAll (fun _ => pure ()) 0 due

theorem inSequence_cons (d : Due Release) (due : List (Due Release)) :
    inSequence (d :: due) = (do release (fun _ => pure ()) 0 d; inSequence due) := rfl

theorem inSequence_append (due more : List (Due Release)) :
    inSequence (due ++ more) = (do inSequence due; inSequence more) :=
  List.forM_append

theorem exec_inSequence_singleton (d : Due Release) (w : World) :
    (inSequence [d]).exec w = (release (fun _ => pure ()) 0 d).exec w := by
  rw [inSequence_cons, exec_bind]
  rcases (release (fun _ => pure ()) 0 d).exec w with ⟨e | _, w'⟩ <;> rfl

theorem aside_dropLock (lock : LockId) : Aside (dropLock lock) := by
  refine aside_get.bind fun w => ?_
  split
  · refine (aside_modify ?_).bind fun _ => ?_
    · exact fun _ => rfl
    split
    · split
      · refine (aside_host _).bind fun result => ?_
        split
        · exact aside_throw _
        · exact aside_pure _
      · exact aside_pure _
    · exact aside_pure _
  · exact aside_pure _

theorem aside_leaveLock (lock : LockId) : Aside (leaveLock lock) := by
  refine aside_get.bind fun w => ?_
  split
  · refine (aside_modify ?_).bind fun _ => ?_
    · exact fun _ => rfl
    dsimp only
    split
    · split
      · exact (aside_host _).bind fun _ => aside_dropLock lock
      · exact aside_dropLock lock
    · exact aside_dropLock lock
  · exact aside_pure _

theorem aside_closeOwned (fd : Int) : Aside (closeOwned fd) := by
  refine (aside_host _).bind fun result => ?_
  split
  · exact aside_pure _
  · exact (aside_describe fd).bind fun _ => (aside_log _).bind fun _ => aside_throw _

/-- A release is noted as run even if it ends the process. -/
theorem ran_release_skip (k : ContextId) (d : Due Release) (w : World) :
    ((release (fun _ => pure ()) k d).exec w).2.journal.ran = d :: w.journal.ran := by
  rw [release, exec_bind_ok (show (modify _ : Run Unit).exec w = (.ok (), w.note d) from rfl)]
  obtain ⟨i, r⟩ := d
  cases r with
  | note label panics =>
    cases panics
    · rfl
    · exact (quiet_log (e := .releasePanicked) (by simp) _).ran
  | dropContext label victim | forget payload => rfl
  | close fd => exact congrArg Ledger.ran (aside_closeOwned fd _)
  | restoreName previous => exact (quiet_onContext k _ _).ran
  | leaveLock lock => exact congrArg Ledger.ran (aside_leaveLock lock _)

theorem Ledger.ran_releaseAll_skip (l : Ledger) : ∀ due : List (Due Release),
    (Ledger.releaseAll (fun _ l => l) due l).ran = due.reverse ++ l.ran := by
  intro due
  induction due generalizing l with
  | nil => rfl
  | cons d due ih =>
    rw [Ledger.releaseAll, ih, List.reverse_cons, List.append_assoc]
    unfold Ledger.release
    split <;> rfl

/-- A sequence ends the process, or runs all of its releases. -/
theorem exec_inSequence (due : List (Due Release)) (w : World) :
    ((inSequence due).exec w).1 = .error .abort ∨
      ((inSequence due).exec w).1 = .ok () ∧
        ((inSequence due).exec w).2.journal.ran = due.reverse ++ w.journal.ran := by
  refine (settles_releaseAll (fun _ => settles_pure ()) 0 due w).imp id fun ⟨⟨_, hok⟩, hl⟩ =>
    ⟨hok, (congrArg Ledger.ran hl).trans (Ledger.ran_releaseAll_skip w.ledger due)⟩

/-- Two runs that both end the process or both do not, and leave worlds that are alike. -/
structure Agree (p : Except Stop α × World) (q : Except Stop β × World) : Prop where
  abort : p.1 = .error .abort ↔ q.1 = .error .abort
  alike : p.2.Alike q.2

theorem Matches.agree {x y : Run α} (hx : Matches x y) (h : w.Alike v) :
    Agree (x.exec w) (y.exec v) where
  abort := by rw [(hx w v h).1]
  alike := (hx w v h).2

/-- A run ends the process, and does outside of contexts, what the releases that it runs do
    in sequence; `F` is its effect on the ledger. -/
def Follows (x : Run α) (F : Ledger → Ledger) : Prop :=
  ∀ (w v : World) (due : List (Due Release)), w.Alike v →
    (F w.ledger).ran = due.reverse ++ w.journal.ran → Agree (x.exec w) ((inSequence due).exec v)

/-- A quiet run that does not end the process. -/
def Gentle (run : Run α) : Prop :=
  ∀ w : World, w.Quiet (run.exec w).2 ∧ (run.exec w).1 ≠ .error .abort

variable {F G : Ledger → Ledger}

theorem Follows.congr {x : Run α} (hx : Follows x F) (h : F = G) : Follows x G :=
  h ▸ hx

theorem Gentle.follows {x : Run α} (hx : Gentle x) (hF : ∀ l, (F l).ran = l.ran) :
    Follows x F := by
  intro w v due h hdue
  obtain rfl : due = [] := by
    rw [hF, show w.ledger.ran = w.journal.ran from rfl, List.self_eq_append_left] at hdue
    exact List.reverse_eq_nil_iff.1 hdue
  exact ⟨iff_of_false (hx w).2 (fun h => by cases h), (hx w).1.alike.symm.trans h⟩

/-- A run and a sequence that agree both end the process, or both go on. -/
theorem Agree.cases {x : Run α} (h : Agree (x.exec w) ((inSequence due).exec v)) (hs : Settles x F) :
    (∃ w' v', x.exec w = (.error .abort, w') ∧ (inSequence due).exec v = (.error .abort, v')) ∨
      ∃ a w' v', x.exec w = (.ok a, w') ∧ (inSequence due).exec v = (.ok (), v') ∧
        w'.ledger = F w.ledger := by
  rcases hs w with habort | ⟨⟨a, ha⟩, hl⟩
  · exact .inl ⟨_, _, Prod.ext habort rfl, Prod.ext (h.abort.1 habort) rfl⟩
  · have hgoes : ((inSequence due).exec v).1 ≠ .error .abort := fun he => by
      cases ha.symm.trans (h.abort.2 he)
    obtain ⟨hok, -⟩ := (exec_inSequence due v).resolve_left hgoes
    exact .inr ⟨a, _, _, Prod.ext ha rfl, Prod.ext hok rfl, hl⟩

theorem Follows.bind {x : Run α} {f : α → Run β} (hx : Follows x F) (hs : Settles x F)
    (hf : ∀ a, Follows (f a) G) (hF : ∀ l, l.ran <:+ (F l).ran) (hG : ∀ l, l.ran <:+ (G l).ran) :
    Follows (x >>= f) (G ∘ F) := by
  intro w v due h hdue
  obtain ⟨first, hfirst⟩ := hF w.ledger
  obtain ⟨second, hsecond⟩ := hG (F w.ledger)
  obtain rfl : due = first.reverse ++ second.reverse := by
    rw [Function.comp_apply, ← hsecond, ← hfirst, ← List.append_assoc,
      show w.ledger.ran = w.journal.ran from rfl, List.append_cancel_right_eq] at hdue
    rw [← List.reverse_append, hdue, List.reverse_reverse]
  have hx' := hx w v first.reverse h (by rw [List.reverse_reverse]; exact hfirst.symm)
  rw [inSequence_append]
  rcases hx'.cases hs with ⟨w', v', hr, hq⟩ | ⟨a, w', v', hr, hq, hl⟩ <;> rw [hr, hq] at hx'
  · rw [exec_bind_error hr, exec_bind_error hq]
    exact ⟨iff_of_true rfl rfl, hx'.alike⟩
  · rw [exec_bind_ok hr, exec_bind_ok hq]
    refine hf a w' v' second.reverse hx'.alike ?_
    rw [hl, List.reverse_reverse]
    exact hsecond.symm.trans (congrArg (second ++ ·) (congrArg Ledger.ran hl).symm)

theorem Follows.then {x : Run α} {f : α → Run β} (hx : Follows x F) (hs : Settles x F)
    (hF : ∀ l, l.ran <:+ (F l).ran) (hf : ∀ a, Gentle (f a)) : Follows (x >>= f) F :=
  hx.bind hs (fun a => (hf a).follows (F := id) fun _ => rfl) hF fun _ => List.suffix_refl _

theorem Gentle.before {x : Run α} {f : α → Run β} (hx : Gentle x) (hs : Settles x id)
    (hf : ∀ a, Follows (f a) G) (hG : ∀ l, l.ran <:+ (G l).ran) : Follows (x >>= f) G :=
  (hx.follows fun _ => rfl).bind hs hf (fun _ => List.suffix_refl _) hG

theorem Follows.discard {x : Run α} (hx : Follows x F) : Follows (discard x) F := by
  intro w v due h hdue
  obtain ⟨habort, halike⟩ := hx w v due h hdue
  rw [exec_discard]
  refine ⟨Iff.trans ?_ habort, halike⟩
  rcases (x.exec w).1 with e | a
  · exact ⟨fun h => by cases h; rfl, fun h => by cases h; rfl⟩
  · exact iff_of_false (fun h => by cases h) fun h => by cases h

theorem gentle_pure (a : α) : Gentle (pure a : Run α) := fun w => ⟨.refl w, by simp⟩

theorem gentle_panic (p : Panic) : Gentle (throw (.panic p) : Run α) := fun w => ⟨.refl w, by simp⟩

theorem gentle_log {e : Event} (he : ∀ name, e ≠ .closedTwice name) : Gentle (log e) := fun w =>
  ⟨quiet_log he w, fun h => by cases h⟩

theorem gentle_onContext (k : ContextId) (f : Context → α × Context) : Gentle (onContext k f) :=
  fun w => ⟨quiet_onContext k f w, fun h => by cases h⟩

theorem Gentle.bind {x : Run α} {f : α → Run β} (hx : Gentle x) (hf : ∀ a, Gentle (f a)) :
    Gentle (x >>= f) := by
  intro w
  have h := hx w
  rw [exec_bind]
  rcases hr : x.exec w with ⟨e | a, w'⟩ <;> rw [hr] at h
  · exact ⟨h.1, fun he => h.2 (by cases he; rfl)⟩
  · exact ⟨h.1.trans (hf a w').1, (hf a w').2⟩

/-! ### Teardowns -/

section

variable {drop : ContextId → Run Unit} {drop' : ContextId → Ledger → Ledger}

theorem follows_release (hd : ∀ k, Follows (drop k) (drop' k)) (ho : ∀ k l, Ledger.Outlasts l (drop' k l))
    (k : ContextId) (d : Due Release) : Follows (release drop k d) (Ledger.release drop' d) := by
  intro w v due h hdue
  by_cases hdrop : ∀ label victim, d.release ≠ .dropContext label victim
  · have hl : Ledger.release drop' d w.ledger = w.ledger.note d := by
      unfold Ledger.release
      split
      · exact absurd ‹_› (hdrop _ _)
      all_goals rfl
    obtain rfl : due = [d] := by
      rw [hl, Ledger.ran_note, show w.ledger.ran = w.journal.ran from rfl, ← List.singleton_append,
        List.append_cancel_right_eq] at hdue
      rw [← List.reverse_reverse due, ← hdue, List.reverse_singleton]
    rw [exec_inSequence_singleton]
    exact (matches_release k 0 hdrop).agree h
  · obtain ⟨i, r⟩ := d
    push Not at hdrop
    obtain ⟨label, victim, rfl⟩ := hdrop
    obtain ⟨inner, hinner⟩ := (ho victim (w.ledger.note ⟨i, .dropContext label victim⟩)).ran
    obtain rfl : due = ⟨i, .dropContext label victim⟩ :: inner.reverse := by
      have hsame : inner ++ [⟨i, .dropContext label victim⟩] = due.reverse := by
        refine (List.append_left_inj w.journal.ran).1 ?_
        rw [← hdue, List.append_assoc]
        exact hinner.symm
      rw [← List.reverse_reverse due, ← hsame, List.reverse_append, List.reverse_singleton,
        List.singleton_append]
    rw [inSequence_cons]
    refine hd victim (w.note ⟨i, .dropContext label victim⟩) (v.note ⟨i, .dropContext label victim⟩)
      inner.reverse (h.note _) ?_
    rw [List.reverse_reverse]
    exact hinner

theorem follows_releaseAll (hd : ∀ k, Follows (drop k) (drop' k))
    (hs : ∀ k, Settles (drop k) (drop' k)) (ho : ∀ k l, Ledger.Outlasts l (drop' k l)) (k : ContextId) :
    ∀ due : List (Due Release), Follows (releaseAll drop k due) (Ledger.releaseAll drop' due)
  | [] => (gentle_pure ()).follows fun _ => rfl
  | d :: more => (follows_release hd ho k d).bind (settles_release hs k d)
      (fun _ => follows_releaseAll hd hs ho k more)
      (fun l => (Ledger.outlasts_release ho d l).suffix)
      fun l => (Ledger.outlasts_releaseAll ho more l).suffix

end

theorem follows_dropWithin : ∀ (b : Nat) (k : ContextId),
    Follows (dropWithin b k) (Ledger.dropWithin b k)
  | 0, _ => (gentle_pure ()).follows fun _ => rfl
  | b + 1, k => by
    intro w v due h hdue
    have hl := ledger_take w k
    have hw₁ : World.Alike { w with contexts := w.contexts.setIfInBounds k none } v :=
      (quiet_takeContext k w).alike.symm.trans h
    rw [dropWithin, exec_bind_ok (show (takeContext k).exec w = _ from rfl)]
    rw [Ledger.dropWithin] at hdue
    rcases hc : w.context? k with _ | c
    · rw [show w.ledger.hold k = none from World.hold_of_context? hc] at hdue
      exact (gentle_pure ()).follows (F := id) (fun _ => rfl) _ v due hw₁ hdue
    rw [show w.ledger.hold k = some c.hold from World.hold_of_context? hc] at hdue
    dsimp only [Context.hold] at hdue ⊢
    rw [← hl, Ledger.dueOf] at hdue
    rcases hdestroy : c.tree.destroy c.tree.top with ⟨_ | teardown, t⟩ <;> rw [hdestroy] at hdue
    · exact (gentle_pure ()).follows (F := id) (fun _ => rfl) _ v due hw₁ hdue
    · exact (follows_releaseAll (follows_dropWithin b) (settles_dropWithin b)
        (Ledger.outlasts_dropWithin b) k teardown.due).then
          (settles_releaseAll (settles_dropWithin b) k _)
          (fun l => (Ledger.outlasts_releaseAll (Ledger.outlasts_dropWithin b) _ l).suffix)
          (fun _ => gentle_log (by simp)) _ v due hw₁ hdue

theorem follows_dropContext (k : ContextId) : Follows (dropContext k) (Ledger.drop k) :=
  fun w => follows_dropWithin w.contexts.size k w

/-! ### Operations -/

theorem follows_onContext (k : ContextId) (f : Context → α × Context) (g : Hold → Hold) :
    Follows (onContext k f) (·.onHold k g) :=
  (gentle_onContext k f).follows fun _ => rfl

theorem follows_enterScope (k : ContextId) (s : Index) :
    Follows (enterScope k s) (·.onTree k fun t => t.enter s) :=
  follows_onContext k _ _

theorem follows_destroyScope (k : ContextId) (s : Index) : Follows (destroyScope k s) (·.destroy k s) := by
  intro w v due h hdue
  change (w.ledger.destroy k s).ran = _ at hdue
  obtain ⟨hr, hl⟩ := exec_onTree k (·.destroy s) w
  have hquiet := quiet_onTree k (·.destroy s) w
  have hw₁ := hquiet.alike.symm.trans h
  rw [destroyScope, exec_bind_ok (Prod.ext hr rfl)]
  rw [Ledger.destroy, ← hold_context, ← hl, Ledger.dueOf, ← hquiet.ran] at hdue
  dsimp only [Context.hold] at hdue
  rcases hdestroy : ((w.context k).tree.destroy s).1 with _ | teardown <;> rw [hdestroy] at hdue
  · exact (gentle_pure false).follows (F := id) (fun _ => rfl) _ v due hw₁ hdue
  · exact (follows_releaseAll follows_dropContext settles_dropContext Ledger.outlasts_drop k
      teardown.due).then (settles_releaseAll settles_dropContext k _)
        (fun l => (Ledger.outlasts_releaseAll Ledger.outlasts_drop _ l).suffix)
        (fun _ => (gentle_log (by simp)).bind fun _ => gentle_pure true) _ v due hw₁ hdue

theorem follows_leaveScope (k : ContextId) (s : Index) :
    Follows (leaveScope k s) (Op.change k (.leave s)).step := by
  intro w v due h hdue
  have hans : (w.context k).tree = (w.ledger.answer k).tree :=
    congrArg Hold.tree (hold_context w k)
  have hleave : ∀ x, w.ledger.hold k = some x → x.tree = (w.context k).tree := by
    intro x hx
    rw [hans, Ledger.answer_of_hold hx]
  rw [leaveScope, exec_bind_ok (show (view k (·.tree.parent? s)).exec w = _ from rfl)]
  rw [Op.step, Change.due, ← hans, Tree.leaving] at hdue
  dsimp only
  rcases hp : (w.context k).tree.parent? s with _ | parent <;> rw [hp] at hdue
  · refine follows_destroyScope k s w v due h ?_
    show (w.ledger.destroy k s).ran = _
    rw [Ledger.destroy, ← hans, Ledger.onTree, Ledger.onHold_congr fun x hx => ?_]
    · exact hdue
    rw [Change.apply, Tree.leaving, hleave x hx, hp]
  · refine (follows_enterScope k parent).bind (settles_enterScope k parent)
      (fun _ => follows_destroyScope k s) (fun _ => List.suffix_refl _) (Ledger.suffix_destroy k s)
      w v due h ?_
    show ((w.ledger.onHold k fun h => { h with tree := h.tree.enter parent }).destroy k s).ran = _
    rw [Ledger.destroy_onHold (Tree.enter_new _ parent), ← hans, Ledger.onHold_congr fun x hx => ?_]
    · exact hdue
    rw [Change.apply, Tree.leaving, hleave x hx, hp]

theorem follows_commit (k : ContextId) (record : Index) (r : Release) :
    Follows (commit k record r) (Op.change k (.commit record r)).step := by
  intro w v due h hdue
  obtain ⟨hr, hl⟩ := exec_onTree k (·.commit record r) w
  have hquiet := quiet_onTree k (·.commit record r) w
  have hw₁ := hquiet.alike.symm.trans h
  have hans : (w.context k).tree = (w.ledger.answer k).tree :=
    congrArg Hold.tree (hold_context w k)
  have happly : ((onTree k (·.commit record r)).exec w).2.ledger =
      w.ledger.onHold k (Change.apply (.commit record r)) := hl
  rw [commit, exec_bind_ok (Prod.ext hr rfl)]
  rw [Op.step, Change.due, ← hans, ← happly, ← hquiet.ran] at hdue
  rcases hcommit : ((w.context k).tree.commit record r).1 with _ | _ <;> rw [hcommit] at hdue
  · exact (gentle_log (by simp)).before (settles_log _)
      (fun _ => follows_release follows_dropContext Ledger.outlasts_drop k ⟨record, r⟩)
      (fun l => (Ledger.outlasts_release Ledger.outlasts_drop _ l).suffix) _ v due hw₁ hdue
  · exact (gentle_pure ()).follows (F := id) (fun _ => rfl) _ v due hw₁ hdue

theorem Follows.back {rest : Run α} (hrest : Follows rest G) (hG : ∀ l, l.ran <:+ (G l).ran)
    (k : ContextId) (call : ProtectedCall) :
    Follows (do
        onContext k fun c => ((), { c with frame := call.outer })
        enterScope k call.resume
        rest)
      (G ∘ Ledger.back k call) := by
  have hframe := settles_onContext (f := fun c : Context => ((), { c with frame := call.outer }))
    (g := fun h => { h with frame := call.outer }) (fun _ => rfl) k
  have h := (follows_onContext k _ _).bind hframe
    (fun _ => (follows_enterScope k call.resume).bind (settles_enterScope k call.resume)
      (fun _ => hrest) (fun _ => List.suffix_refl _) hG)
    (fun _ => List.suffix_refl _) fun l => hG (l.onTree k _)
  exact h.congr (funext fun l => congrArg G (Ledger.onHold_onHold l k _ _))

theorem follows_leaveCall (k : ContextId) (call : ProtectedCall) (how : Exit Unit) :
    Follows (leaveCall k call how) (Op.change k (.exit call how)).step := by
  have hdestroy : (·.destroy k call.boundary) ∘ Ledger.back k call = fun l => .releaseAll .drop
      (Ledger.dueOf ((l.answer k).tree.enter call.resume) call.boundary)
      (l.onHold k fun h =>
        ⟨((h.tree.enter call.resume).destroy call.boundary).2, call.outer⟩) :=
    funext fun l => Ledger.destroy_onHold (Tree.enter_new _ call.resume) call.boundary
  have hsuffix := Ledger.suffix_destroy k call.boundary
  cases how with
  | returned value =>
    exact (((gentle_log (by simp)).bind fun _ => gentle_pure _).follows (F := id)
      fun _ => rfl).back (fun _ => List.suffix_refl _) k call
  | failed f =>
    have hrest := (gentle_log (e := .unwinding call.depth f.code) (by simp)).before (settles_log _)
      (fun _ => (follows_destroyScope k call.boundary).then (settles_destroyScope k call.boundary)
        hsuffix fun _ => gentle_pure (Except.error f.report : Except Report Unit)) hsuffix
    refine Follows.congr (Follows.back ?_ hsuffix k call) hdestroy
    dsimp only
    split
    · exact (gentle_log (by simp)).before (settles_log _) (fun _ => hrest) hsuffix
    · exact hrest
  | panicked p =>
    exact (((gentle_log (by simp)).before (settles_log _)
      (fun _ => (follows_destroyScope k call.boundary).then (settles_destroyScope k call.boundary)
        hsuffix fun _ => gentle_panic (α := Except Report Unit) p) hsuffix).back hsuffix k call).congr
          hdestroy

end Run

/-- The world that releases leave that have run one after the other. -/
def World.after (w : World) (due : List (Due Release)) : World :=
  ((Run.inSequence due).exec w).2

end ScopedResources
