/-
  Runs in a world where one context is at work.

  What matters of such a world is the tree of its context, level by level, the call that is
  innermost, the host, and what has been released.  A run that only logs what no log takes
  leaves the rest alone, so that each operation is described by what it does to these.

  * `Scene` is what matters, `World.At` says that a world is like that.
  * `At.reserve`, `At.commit`, `At.pushScope`, `At.popScope`, `At.enterScope`: what each
    operation does where there is room.
  * `Host.Closes`: what releasing texts, blocks and open descriptors leaves of a host;
    `exec_releaseAll_of_closes`, `At.destroyScope`, `At.leaveScope`, `At.dropContext`.
  * `At.throwing`, `At.granted_error`: how a failure is raised.
  * `At.enterCall`, `At.leaveCall_returned`, `At.leaveCall_failed`, `exec_protect`: a
    protected call, by what its body comes to.
-/
import ScopedResources.Proofs.Effect
import ScopedResources.Proofs.Levels
import ScopedResources.Proofs.Undoing

namespace ScopedResources

open Run

/-- What matters of a world with one context at work. -/
structure Scene where
  /-- The scopes from the current one up, each with what is older beside it. -/
  levels : List (Index × Forest Release)
  /-- What is below the current scope. -/
  inner : Forest Release
  frame : Option Frame
  program : String
  host : Host
  ran : List (Due Release)

/-- A context of a world is at work, and all is as it is said. -/
structure World.At (w : World) (k : ContextId) (s : Scene) : Prop where
  context : ∃ t, w.context? k = some ⟨t, s.frame, s.program⟩ ∧ t.Stands s.levels s.inner
  host : w.host = s.host
  ran : w.journal.ran = s.ran
  names : w.names = []

/-- An event below warnings is in no log. -/
theorem World.record_of_level (w : World) {e : Event} (he : e.level = .trace ∨ e.level = .debug) :
    w.record e = { w with journal.events := e :: w.journal.events } := by
  have htakes : ∀ log : Log, log.takes e = false := fun log => by
    rcases he with he | he <;> rw [Log.takes, he] <;> rfl
  unfold World.record
  dsimp only
  split
  · rw [if_neg (by rw [htakes]; decide)]
  · rfl

variable {α β : Type} {w : World} {k : ContextId} {s : Scene}
  {levels outer nearer : List (Index × Forest Release)} {inner older below x : Forest Release}
  {frame : Option Frame} {program : String} {host host' : Host} {ran : List (Due Release)}
  {b p : Index}

namespace World.At

/-! ## Looking and logging -/

theorem log (h : w.At k s) {e : Event} (he : e.level = .trace ∨ e.level = .debug) :
    ∃ w', (Run.log e).exec w = (.ok (), w') ∧ w'.At k s := by
  refine ⟨w.record e, rfl, ?_⟩
  rw [w.record_of_level he]
  exact ⟨h.context, h.host, h.ran, h.names⟩

theorem describe (h : w.At k s) (fd : Int) : (Run.describe fd).exec w = (.ok (toString fd), w) := by
  show (Except.ok (w.describe fd), w) = _
  rw [World.describe, h.names]
  rfl

theorem onHost (h : w.At k ⟨levels, inner, frame, program, host, ran⟩) {call : Host.Call α}
    {result : Except Errno α} (hcall : call.exec host = (result, host')) :
    ∃ w', (Run.host call).exec w = (.ok result, w') ∧
      w'.At k ⟨levels, inner, frame, program, host', ran⟩ := by
  refine ⟨{ w with host := host' }, ?_, h.context, rfl, h.ran, h.names⟩
  rw [exec_host, h.host, hcall]

theorem tree (h : w.At k ⟨levels, inner, frame, program, host, ran⟩) :
    ∃ t, w.context? k = some ⟨t, frame, program⟩ ∧ t.Stands levels inner :=
  h.context

/-- What is seen of the context, where all that matters is what is the same. -/
theorem view (h : w.At k ⟨levels, inner, frame, program, host, ran⟩) {f : Context → α} {a : α}
    (hf : ∀ t : Tree Release, t.Stands levels inner → f ⟨t, frame, program⟩ = a) :
    (Run.view k f).exec w = (.ok a, w) := by
  obtain ⟨t, hc, ht⟩ := h.tree
  rw [exec_view hc, hf t ht]

/-! ## Changing the tree -/

/-- Another tree takes the place of the one that the context had, in another call. -/
theorem onContext (h : w.At k ⟨levels, inner, frame, program, host, ran⟩) {t t' : Tree Release}
    {f : Context → α × Context} {a : α} {levels' : List (Index × Forest Release)}
    {inner' : Forest Release} {frame' : Option Frame} (hc : w.context? k = some ⟨t, frame, program⟩)
    (hf : f ⟨t, frame, program⟩ = (a, ⟨t', frame', program⟩)) (ht' : t'.Stands levels' inner') :
    ∃ w', (Run.onContext k f).exec w = (.ok a, w') ∧
      w'.At k ⟨levels', inner', frame', program, host, ran⟩ := by
  refine ⟨{ w with contexts := w.contexts.setIfInBounds k (some ⟨t', frame', program⟩) }, ?_,
    ⟨t', ?_, ht'⟩, h.host, h.ran, h.names⟩
  · rw [exec_onContext, onContext_of_context? hc, hf]
  · rw [context?_setIfInBounds, if_pos ⟨rfl, lt_size_of_context? hc⟩]

theorem onTree (h : w.At k ⟨levels, inner, frame, program, host, ran⟩) {t t' : Tree Release}
    {f : Tree Release → α × Tree Release} {a : α} {levels' : List (Index × Forest Release)}
    {inner' : Forest Release} (hc : w.context? k = some ⟨t, frame, program⟩) (hf : f t = (a, t'))
    (ht' : t'.Stands levels' inner') :
    ∃ w', (Run.onTree k f).exec w = (.ok a, w') ∧
      w'.At k ⟨levels', inner', frame, program, host, ran⟩ :=
  h.onContext hc (by rw [hf]) ht'

theorem reserve (h : w.At k ⟨levels, inner, frame, program, host, ran⟩)
    (hroom : (inner.indices ++ Forest.around levels).length < Slots.capacity) :
    ∃ i w', (Run.reserve k).exec w = (.ok i, w') ∧
      w'.At k ⟨levels, .record i none inner, frame, program, host, ran⟩ := by
  obtain ⟨t, hc, ht⟩ := h.tree
  obtain ⟨i, t', hreserve, ht'⟩ := ht.reserve (ht.size ▸ hroom)
  obtain ⟨w', hexec, h'⟩ := h.onTree hc hreserve ht'
  refine ⟨i, w', ?_, h'⟩
  rw [Run.reserve, exec_bind_ok hexec]
  rfl

theorem commit (h : w.At k ⟨levels, inner, frame, program, host, ran⟩) {i : Index}
    (hi : i ∈ inner.records) (r : Release) :
    ∃ w', (Run.commit k i r).exec w = (.ok (), w') ∧
      w'.At k ⟨levels, inner.attach i r, frame, program, host, ran⟩ := by
  obtain ⟨t, hc, ht⟩ := h.tree
  obtain ⟨t', hcommit, ht'⟩ := ht.commit hi r
  obtain ⟨w', hexec, h'⟩ := h.onTree (f := (·.commit i r)) hc hcommit ht'
  refine ⟨w', ?_, h'⟩
  rw [Run.commit, exec_bind_ok hexec]
  rfl

/-- The nodes below the current scope are different from one another. -/
theorem nodup (h : w.At k ⟨levels, inner, frame, program, host, ran⟩) : inner.indices.Nodup := by
  obtain ⟨t, -, ht⟩ := h.tree
  exact (List.nodup_append.1 ht.nodup).1

/-- The record that was reserved last gets its release. -/
theorem commit_newest {i : Index}
    (h : w.At k ⟨levels, .record i none older, frame, program, host, ran⟩)
    (r : Release) :
    ∃ w', (Run.commit k i r).exec w = (.ok (), w') ∧
      w'.At k ⟨levels, .record i (some r) older, frame, program, host, ran⟩ := by
  obtain ⟨w', hexec, h'⟩ := h.commit (List.mem_cons_self ..) r
  refine ⟨w', hexec, ?_⟩
  rwa [Forest.attach, if_pos rfl, Forest.attach_of_notMem (Forest.nodup_record.1 h.nodup).1] at h'

/-! ## Scopes -/

theorem pushScope? (h : w.At k ⟨levels, inner, frame, program, host, ran⟩)
    (hroom : (inner.indices ++ Forest.around levels).length < Slots.capacity) :
    ∃ b w', (Run.pushScope? k).exec w = (.ok (some b), w') ∧
      w'.At k ⟨(b, inner) :: levels, .nil, frame, program, host, ran⟩ := by
  obtain ⟨t, hc, ht⟩ := h.tree
  obtain ⟨b, t', hpush, ht'⟩ := ht.push (ht.size ▸ hroom)
  obtain ⟨w₁, hexec, h₁⟩ := h.onTree (f := Tree.push) hc hpush ht'
  obtain ⟨w₂, hlog, h₂⟩ := h₁.log (e := .pushed b t.current) (.inl rfl)
  refine ⟨b, w₂, ?_, h₂⟩
  rw [Run.pushScope?, exec_bind_ok (exec_view hc _), exec_bind_ok hexec]
  dsimp only
  rw [exec_bind_ok hlog]
  rfl

theorem pushScope (h : w.At k ⟨levels, inner, frame, program, host, ran⟩)
    (hroom : (inner.indices ++ Forest.around levels).length < Slots.capacity) :
    ∃ b w', (Run.pushScope k).exec w = (.ok b, w') ∧
      w'.At k ⟨(b, inner) :: levels, .nil, frame, program, host, ran⟩ := by
  obtain ⟨b, w', hexec, h'⟩ := h.pushScope? hroom
  refine ⟨b, w', ?_, h'⟩
  rw [Run.pushScope, exec_bind_ok hexec]
  rfl

/-- A scope is left for its parent, without being torn down. -/
theorem popScope (h : w.At k ⟨(b, older) :: (p, x) :: outer, inner, frame, program, host, ran⟩) :
    ∃ w', (Run.popScope k).exec w = (.ok b, w') ∧
      w'.At k ⟨(p, x) :: outer, .scope b inner older, frame, program, host, ran⟩ := by
  obtain ⟨t, hc, ht⟩ := h.tree
  have hcurrent : t.current = b := (Option.some.inj ht.current).symm
  obtain ⟨w₁, hexec, h₁⟩ := h.onTree (f := fun t => ((), t.pop)) hc rfl ht.pop
  obtain ⟨w₂, hlog, h₂⟩ := h₁.log (e := .popped b p) (.inl rfl)
  refine ⟨w₂, ?_, h₂⟩
  rw [Run.popScope, exec_bind_ok (exec_view hc _), hcurrent, exec_bind_ok (exec_view hc _), ht.parent?]
  dsimp only
  rw [exec_bind_ok hexec, exec_bind_ok hlog]
  rfl

/-- A scope further out becomes current. -/
theorem enterScope (h : w.At k ⟨nearer ++ (b, x) :: outer, inner, frame, program, host, ran⟩) :
    ∃ w', (Run.enterScope k b).exec w = (.ok (), w') ∧
      w'.At k ⟨(b, x) :: outer, .nest nearer inner, frame, program, host, ran⟩ := by
  obtain ⟨t, hc, ht⟩ := h.tree
  exact h.onTree (f := fun t => ((), t.enter b)) hc rfl ht.enter

end World.At

/-! ## Releasing -/

/-- A host without a descriptor. -/
def Host.closed (h : Host) (fd : Int) : Host :=
  { h with descriptors := h.descriptors.setIfInBounds fd.toNat none }

/-- Releases that close descriptors, each of which is open at its turn, and give up texts
    and blocks; and the host that they leave. -/
inductive Host.Closes : Host → List Release → Host → Prop
  | nil (h : Host) : Closes h [] h
  | close {h h' : Host} {fd : Int} {more : List Release} :
    h.isOpen fd = true → Closes (h.closed fd) more h' → Closes h (.close fd :: more) h'
  | forget {h h' : Host} {more : List Release} (p : Payload) :
    Closes h more h' → Closes h (.forget p :: more) h'

/-- Such releases run one after the other, and nothing else happens. -/
theorem exec_releaseAll_of_closes (drop : ContextId → Run Unit) {due : List (Due Release)}
    (hcloses : w.host.Closes (due.map (·.release)) host') :
    (releaseAll drop k due).exec w =
      (.ok (), { w with host := host', journal.ran := due.reverse ++ w.journal.ran }) := by
  induction due generalizing w with
  | nil =>
    cases hcloses
    rfl
  | cons d due ih =>
    obtain ⟨record, release⟩ := d
    obtain ⟨noted, hnoted⟩ : ∃ w₁ : World,
      w₁ = { w with journal.ran := ⟨record, release⟩ :: w.journal.ran } := ⟨_, rfl⟩
    have hall : (releaseAll drop k (⟨record, release⟩ :: due)).exec w =
        (Run.release drop k ⟨record, release⟩ >>= fun _ => releaseAll drop k due).exec w := rfl
    rw [hall, List.reverse_cons, List.append_assoc]
    cases hcloses with
    | @close _ _ fd _ hopen hmore =>
      have hcall : (Run.host (Host.close fd)).exec noted =
          (.ok (.ok ()), { noted with host := w.host.closed fd }) := by
        rw [exec_host, hnoted, Host.exec_close, if_pos hopen]
        rfl
      have hclose : (Run.release drop k ⟨record, .close fd⟩).exec w =
          (.ok (), { noted with host := w.host.closed fd }) := by
        rw [hnoted] at hcall
        rw [Run.release, exec_bind_ok (exec_modify _ _)]
        dsimp only
        rw [closeOwned, exec_bind_ok hcall, hnoted]
        rfl
      rw [exec_bind_ok hclose, ih (w := { noted with host := w.host.closed fd }) hmore, hnoted]
      rfl
    | forget p hmore =>
      have hforget : (Run.release drop k ⟨record, .forget p⟩).exec w = (.ok (), noted) := by
        rw [hnoted]
        rfl
      rw [exec_bind_ok hforget, ih (w := noted) (by rw [hnoted]; exact hmore), hnoted]
      rfl

namespace World.At

/-- The newest scope below the current one is torn down. -/
theorem destroyScope (h : w.At k ⟨levels, .scope b below older, frame, program, host, ran⟩)
    (hcloses : host.Closes (below.due.map (·.release)) host') :
    ∃ w', (Run.destroyScope k b).exec w = (.ok true, w') ∧
      w'.At k ⟨levels, older, frame, program, host', below.due.reverse ++ ran⟩ := by
  obtain ⟨t, hc, ht⟩ := h.tree
  obtain ⟨t', hdestroy, ht'⟩ := ht.destroy
  obtain ⟨w₁, hexec, h₁⟩ := h.onTree (f := (·.destroy b)) hc hdestroy ht'
  have hhost : w₁.host = host := h₁.host
  have hreleased := exec_releaseAll_of_closes dropContext (k := k) (hhost ▸ hcloses)
  obtain ⟨w₂, hw₂⟩ : ∃ w₂ : World,
    w₂ = { w₁ with host := host', journal.ran := below.due.reverse ++ w₁.journal.ran } := ⟨_, rfl⟩
  have h₂ : w₂.At k ⟨levels, older, frame, program, host', below.due.reverse ++ ran⟩ := by
    rw [hw₂]
    exact ⟨h₁.context, rfl, congrArg (below.due.reverse ++ ·) h₁.ran, h₁.names⟩
  obtain ⟨w₃, hlog, h₃⟩ := h₂.log (e := .destroyed b (below.indices.length + 1)) (.inr rfl)
  refine ⟨w₃, ?_, h₃⟩
  rw [Run.destroyScope, exec_bind_ok hexec]
  dsimp only
  rw [exec_bind_ok hreleased, ← hw₂, exec_bind_ok hlog]
  rfl

/-- The current scope is left for its parent and torn down. -/
theorem leaveScope (h : w.At k ⟨(b, older) :: (p, x) :: outer, inner, frame, program, host, ran⟩)
    (hcloses : host.Closes (inner.due.map (·.release)) host') :
    ∃ w', (Run.leaveScope k b).exec w = (.ok true, w') ∧
      w'.At k ⟨(p, x) :: outer, older, frame, program, host', inner.due.reverse ++ ran⟩ := by
  obtain ⟨t, hc, ht⟩ := h.tree
  have happend : (b, older) :: (p, x) :: outer = [(b, older)] ++ (p, x) :: outer := rfl
  rw [happend] at h
  obtain ⟨w₁, henter, h₁⟩ := h.enterScope
  obtain ⟨w₂, hdestroy, h₂⟩ := h₁.destroyScope hcloses
  refine ⟨w₂, ?_, h₂⟩
  rw [Run.leaveScope, exec_bind_ok (exec_view hc _), ht.parent?]
  dsimp only
  rw [exec_bind_ok henter, hdestroy]

/-- A context with no scope but the top one current is dropped. -/
theorem dropContext (h : w.At k ⟨[(b, x)], inner, frame, program, host, ran⟩)
    (hcloses : host.Closes (inner.due.map (·.release)) host') :
    ∃ w', (Run.dropContext k).exec w = (.ok (), w') ∧ w'.host = host' := by
  obtain ⟨t, hc, ht⟩ := h.tree
  obtain ⟨t', hdestroy⟩ := ht.destroy_top
  obtain ⟨n, hn⟩ := Nat.exists_eq_succ_of_ne_zero (Nat.ne_zero_of_lt (lt_size_of_context? hc))
  obtain ⟨taken, htaken⟩ : ∃ w₁ : World,
    w₁ = { w with contexts := w.contexts.setIfInBounds k none } := ⟨_, rfl⟩
  have htake : (takeContext k).exec w = (.ok (w.context? k), taken) := by rw [htaken]; rfl
  have hhost : taken.host = host := by rw [htaken]; exact h.host
  have hreleased := exec_releaseAll_of_closes (dropWithin n) (k := k) (hhost ▸ hcloses)
  obtain ⟨w₂, hw₂⟩ : ∃ w₂ : World,
    w₂ = { taken with host := host', journal.ran := inner.due.reverse ++ taken.journal.ran } :=
    ⟨_, rfl⟩
  rw [Run.dropContext, exec_bind_ok (exec_get w), hn, dropWithin, exec_bind_ok htake, hc]
  dsimp only
  rw [hdestroy]
  dsimp only
  rw [exec_bind_ok hreleased, ← hw₂]
  refine ⟨w₂.record _, rfl, ?_⟩
  rw [w₂.record_of_level (.inr rfl), hw₂]

/-! ## Failing -/

/-- A failure tells its message to the call that is innermost. -/
theorem throwing {d : Nat} (h : w.At k ⟨levels, inner, some ⟨b, .message, d⟩, program, host, ran⟩)
    (code : Int) (f : Format) :
    ∃ w', (Run.throwing (fail k code f) : Run α).exec w =
        (.error (.failure ⟨code, some f.text, some program, d⟩), w') ∧
      w'.At k ⟨levels, inner, some ⟨b, .message, d⟩, program, host, ran⟩ := by
  obtain ⟨w₁, hrender, h₁⟩ : ∃ w₁, (render f).exec w = (.ok f.text, w₁) ∧
      w₁.At k ⟨levels, inner, some ⟨b, .message, d⟩, program, host, ran⟩ := by
    cases f with
    | literal text => exact ⟨w, rfl, h⟩
    | rendered written refused => exact ⟨_, rfl, h.context, h.host, h.ran, h.names⟩
  obtain ⟨w₂, hlog, h₂⟩ := h₁.log (e := .raised code d) (.inr rfl)
  refine ⟨w₂, ?_, h₂⟩
  have hactive : (activeFrame k code f).exec w = (.ok ⟨b, .message, d⟩, w) := by
    rw [activeFrame, exec_bind_ok (h.view (a := some ⟨b, .message, d⟩) fun t _ => rfl)]
    rfl
  have hfail : (fail k code f).exec w = (.ok ⟨code, some f.text, some program, d⟩, w₂) := by
    rw [fail, exec_bind_ok hactive]
    dsimp only
    rw [exec_bind_ok hrender, exec_bind_ok (h₁.view (a := program) fun t _ => rfl), exec_bind_ok hlog]
    rfl
  rw [Run.throwing, exec_bind_ok hfail]
  rfl

theorem throwing_failIo {d : Nat}
    (h : w.At k ⟨levels, inner, some ⟨b, .message, d⟩, program, host, ran⟩) (e : IoError)
    (what : String) :
    ∃ w', (Run.throwing (failIo k e (.rendered what false)) : Run α).exec w =
        (.error (.failure ⟨e.code, some (what ++ (": " ++ e.message)), some program, d⟩), w') ∧
      w'.At k ⟨levels, inner, some ⟨b, .message, d⟩, program, host, ran⟩ :=
  h.throwing e.code ((Format.rendered what false).append (": " ++ e.message))

/-- What the host refuses is a failure, with what was tried and the error. -/
theorem granted_error {d : Nat}
    (h : w.At k ⟨levels, inner, some ⟨b, .message, d⟩, program, host, ran⟩) {what : Run String}
    {text : String} (hwhat : what.exec w = (.ok text, w)) (e : Errno) :
    ∃ w', (granted k what (.error e) : Run α).exec w =
        (.error (.failure ⟨(IoError.os e).code, some (text ++ (": " ++ (IoError.os e).message)),
          some program, d⟩), w') ∧
      w'.At k ⟨levels, inner, some ⟨b, .message, d⟩, program, host, ran⟩ := by
  obtain ⟨w', hexec, h'⟩ := h.throwing_failIo (α := α) (.os e) text
  exact ⟨w', by rw [granted, exec_bind_ok hwhat, hexec], h'⟩

/-! ## Protected calls -/

/-- The first protected call of a context begins. -/
theorem enterCall (h : w.At k ⟨(p, x) :: outer, inner, none, program, host, ran⟩)
    (hroom : (inner.indices ++ Forest.around ((p, x) :: outer)).length < Slots.capacity) :
    ∃ b w', (Run.enterCall k .message).exec w = (.ok (.ok ⟨p, b, 1, none⟩), w') ∧
      w'.At k ⟨(b, inner) :: (p, x) :: outer, .nil, some ⟨b, .message, 1⟩, program, host, ran⟩ := by
  obtain ⟨b, w₁, hpush, h₁⟩ := h.pushScope? hroom
  obtain ⟨t, hc, ht⟩ := h₁.tree
  obtain ⟨w₂, hframe, h₂⟩ := h₁.onContext (a := ())
    (f := fun c => ((), { c with frame := some ⟨b, .message, 1⟩ })) hc rfl ht
  obtain ⟨w₃, hlog, h₃⟩ := h₂.log (e := .entered 1 b) (.inl rfl)
  refine ⟨b, w₃, ?_, h₃⟩
  rw [Run.enterCall, exec_bind_ok (h.view (a := p) fun t ht => (Option.some.inj ht.current).symm),
    exec_bind_ok hpush]
  dsimp only
  rw [exec_bind_ok (h₁.view (a := none) fun t _ => rfl),
    exec_bind_ok (h₁.view (a := 0) fun t _ => rfl), exec_bind_ok hframe, exec_bind_ok hlog]
  rfl

/-- A call whose body returns: its scope stays, below the one that is current again. -/
theorem leaveCall_returned
    (h : w.At k ⟨nearer ++ (b, older) :: (p, x) :: outer, inner, frame, program, host, ran⟩) (a : α) :
    ∃ w', (leaveCall k ⟨p, b, 1, none⟩ (.returned a)).exec w = (.ok (.ok a), w') ∧
      w'.At k ⟨(p, x) :: outer, .scope b (.nest nearer inner) older, none, program, host, ran⟩ := by
  obtain ⟨t, hc, ht⟩ := h.tree
  obtain ⟨w₁, hframe, h₁⟩ :=
    h.onContext (a := ()) (f := fun c => ((), { c with frame := none })) hc rfl ht
  have happend : nearer ++ (b, older) :: (p, x) :: outer =
      (nearer ++ [(b, older)]) ++ (p, x) :: outer := by simp
  rw [happend] at h₁
  obtain ⟨w₂, henter, h₂⟩ := h₁.enterScope
  obtain ⟨w₃, hlog, h₃⟩ := h₂.log (e := .returned 1) (.inl rfl)
  rw [Forest.nest_append] at h₃
  refine ⟨w₃, ?_, h₃⟩
  rw [leaveCall, exec_bind_ok hframe, exec_bind_ok henter]
  dsimp only
  rw [exec_bind_ok hlog]
  rfl

/-- A call whose body fails: all that it has begun is torn down. -/
theorem leaveCall_failed
    (h : w.At k ⟨nearer ++ (b, older) :: (p, x) :: outer, inner, frame, program, host, ran⟩)
    (hcloses : host.Closes ((Forest.nest nearer inner).due.map (·.release)) host')
    {f : Failure} (hdepth : f.depth = 1) :
    ∃ w', (leaveCall k ⟨p, b, 1, none⟩ (.failed f : Exit α)).exec w = (.ok (.error f.report), w') ∧
      w'.At k ⟨(p, x) :: outer, older, none, program, host',
        (Forest.nest nearer inner).due.reverse ++ ran⟩ := by
  obtain ⟨t, hc, ht⟩ := h.tree
  obtain ⟨w₁, hframe, h₁⟩ :=
    h.onContext (a := ()) (f := fun c => ((), { c with frame := none })) hc rfl ht
  have happend : nearer ++ (b, older) :: (p, x) :: outer =
      (nearer ++ [(b, older)]) ++ (p, x) :: outer := by simp
  rw [happend] at h₁
  obtain ⟨w₂, henter, h₂⟩ := h₁.enterScope
  obtain ⟨w₃, hlog, h₃⟩ := h₂.log (e := .unwinding 1 f.code) (.inr rfl)
  rw [Forest.nest_append] at h₃
  obtain ⟨w₄, hdestroy, h₄⟩ := h₃.destroyScope hcloses
  refine ⟨w₄, ?_, h₄⟩
  rw [leaveCall, exec_bind_ok hframe, exec_bind_ok henter]
  dsimp only
  rw [hdepth, if_neg (by simp), exec_bind_ok hlog, exec_bind_ok hdestroy]
  rfl

end World.At

/-- A scope around a body that returns. -/
theorem exec_withScope {body : Run α} {a : α} {w₁ w₂ w₃ : World} {destroyed : Bool}
    (hpush : (pushScope k).exec w = (.ok b, w₁)) (hbody : body.exec w₁ = (.ok a, w₂))
    (hleave : (leaveScope k b).exec w₂ = (.ok destroyed, w₃)) :
    (withScope k body).exec w = (.ok a, w₃) := by
  show (pushScope k >>= fun scope => body >>= fun value => leaveScope k scope >>= fun _ =>
    pure value).exec w = _
  rw [exec_bind_ok hpush, exec_bind_ok hbody, exec_bind_ok hleave]
  rfl

/-- A scope around a body that fails is left as it is. -/
theorem exec_withScope_error {body : Run α} {e : Stop} {w₁ w₂ : World}
    (hpush : (pushScope k).exec w = (.ok b, w₁)) (hbody : body.exec w₁ = (.error e, w₂)) :
    (withScope k body).exec w = (.error e, w₂) := by
  show (pushScope k >>= fun scope => body >>= fun value => leaveScope k scope >>= fun _ =>
    pure value).exec w = _
  rw [exec_bind_ok hpush, exec_bind_error hbody]

/-- A protected call, by its beginning, its body and its end. -/
theorem exec_protect {call : ProtectedCall} {body : Run α} {w₁ w₂ w₃ : World}
    {r : Except Stop α} {exit : Exit α} {result : Except Stop (Except Report α)}
    (henter : (enterCall k .message).exec w = (.ok (.ok call), w₁)) (hbody : body.exec w₁ = (r, w₂))
    (hexit : attempted r = .ok exit) (hleave : (leaveCall k call exit).exec w₂ = (result, w₃)) :
    (protect k .message body).exec w = (result, w₃) := by
  have hattempt : (attempt body).exec w₁ = (.ok exit, w₂) := by
    rw [exec_attempt, hbody, hexit]
  show (enterCall k .message >>= _ : Run _).exec w = _
  rw [exec_bind_ok henter]
  dsimp only
  show (attempt body >>= _ : Run _).exec w₁ = _
  rw [exec_bind_ok hattempt]
  exact hleave

end ScopedResources
