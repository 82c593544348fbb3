/-
  What a protected call reports.

  A failure is made in one place and reported in another: a call around it may be innermost
  by then, or a call of another context, the program may have another name, and what was
  owned is torn down.  None of this is in the report, which is fixed when the failure is
  made.

  * `Raise` are the ways to make a failure, and `Raise.text` its message, if it has one.
  * `Fixed` is what a report says, and `raise_reported` proves it of every call that
    receives the failure.
-/
import ScopedResources.Proofs.Demands

namespace ScopedResources

variable {α : Type} {w w' : World} {k : ContextId} {c : Context} {frame : Frame}

/-- The ways to make a failure. -/
inductive Raise where
  | fail (code : Int) (f : Format)
  /-- For an operation that was refused, by the host or otherwise. -/
  | io (e : IoError) (f : Format)
  | noMemory

namespace Raise

def run (k : ContextId) : Raise → Run Failure
  | fail code f => Run.fail k code f
  | io e f => Run.failIo k e f
  | noMemory => Run.failNoMemory k

def code : Raise → Int
  | fail code _ => code
  | io e _ => e.code
  | noMemory => Errno.noMemory

/-- The message, if rendering it is not refused. -/
def complete? : Raise → Option String
  | fail _ f => f.complete?
  | io e f => f.complete?.map fun text => text ++ (": " ++ e.message)
  | noMemory => some noMemoryMessage

/-- The message: all of it, or the note that there is none. -/
def text (x : Raise) : String :=
  x.complete?.getD Format.invalid

end Raise

/-- What the report of a failure says that was made in the context `c`, where the innermost
    call asked for `detail`. -/
structure Fixed (x : Raise) (c : Context) (detail : Detail) (report : Report) : Prop where
  code : report.code = x.code
  /-- The name of the program when the failure was made, if the call asked for messages. -/
  program : ∀ name, report.program = some name ↔ detail = .message ∧ name = c.program
  /-- There is a message if the call asked for one, or if there was no memory. -/
  message : ∀ text, report.message = some text ↔
    (detail = .message ∨ x = .noMemory) ∧ text = x.text

theorem Format.complete?_append (f : Format) (more : String) :
    (f.append more).complete? = f.complete?.map (· ++ more) := by
  rcases f with text | ⟨written, _ | _⟩ <;> rfl

theorem Fixed.of_failure? {code : Int} {f : Format} {x : Raise} {made : Failure}
    (hframe : c.frame = some frame) (hmade : c.failure? code f = some made) (hcode : x.code = code)
    (htext : x.complete? = f.complete?) (hmemory : x ≠ .noMemory) :
    Fixed x c frame.detail made.report := by
  rw [Context.failure?, hframe, Option.map_some] at hmade
  have hmessage : x.text = f.text := by rw [Raise.text, Format.text, htext]
  rcases hd : frame.detail with _ | _ <;> rw [hd] at hmade <;> cases hmade
  · exact ⟨hcode.symm, by simp [Failure.report], by simp [Failure.report, hmemory]⟩
  · exact ⟨hcode.symm, by simp [Failure.report, eq_comm], by simp [Failure.report, hmessage, eq_comm]⟩

theorem Fixed.of_noMemory? {made : Failure} (hframe : c.frame = some frame)
    (hmade : c.noMemory? = some made) : Fixed .noMemory c frame.detail made.report := by
  rw [Context.noMemory?, hframe, Option.map_some] at hmade
  cases hmade
  have htext : Raise.noMemory.text = noMemoryMessage := rfl
  rcases frame.detail with _ | _
  · exact ⟨rfl, by simp [Failure.report], by simp [Failure.report, htext, eq_comm]⟩
  · exact ⟨rfl, by simp [Failure.report, eq_comm], by simp [Failure.report, htext, eq_comm]⟩

namespace Run

theorem renderings_record (w : World) (e : Event) : (w.record e).renderings = w.renderings := by
  unfold World.record
  dsimp only
  split
  · split
    · split <;> rfl
    · rfl
  · rfl

/-- Where only codes are wanted, no message is rendered. -/
theorem renderings_fail (hc : w.context? k = some c) (hframe : c.frame = some frame)
    (hd : frame.detail = .code) (code : Int) (f : Format) :
    ((fail k code f).exec w).2.renderings = w.renderings := by
  rw [fail, activeFrame, bind_assoc, exec_bind_ok (exec_view hc _), hframe]
  obtain ⟨boundary, detail, depth⟩ := frame
  cases hd
  exact renderings_record w _

theorem renderings_failNoMemory (hc : w.context? k = some c) (hframe : c.frame = some frame) :
    ((failNoMemory k).exec w).2.renderings = w.renderings := by
  rw [failNoMemory, activeFrame, bind_assoc, exec_bind_ok (exec_view hc _), hframe]
  obtain ⟨boundary, _ | _, depth⟩ := frame <;> rfl

end Run

/-- A failure is made wherever a call is active, and no context changes. -/
theorem Raise.exec_run (hc : w.context? k = some c) (hframe : c.frame = some frame) (x : Raise) :
    ∃ made w', (x.run k).exec w = (.ok made, w') ∧ Fixed x c frame.detail made.report ∧
      (∀ j, w'.context? j = w.context? j) ∧
        (frame.detail = .code → w'.renderings = w.renderings) := by
  have hfail : ∀ code f, x.run k = Run.fail k code f → x.code = code →
      x.complete? = f.complete? → x ≠ .noMemory → ∃ made w', (x.run k).exec w = (.ok made, w') ∧
        Fixed x c frame.detail made.report ∧ (∀ j, w'.context? j = w.context? j) ∧
          (frame.detail = .code → w'.renderings = w.renderings) := by
    intro code f hrun hcode htext hmemory
    obtain ⟨made, hmade⟩ : ∃ made, c.failure? code f = some made := by
      rw [Context.failure?, hframe]; exact ⟨_, rfl⟩
    have hexec := Run.exec_fail hc code f
    rw [hmade] at hexec
    obtain ⟨w', hw'⟩ := Run.exists_exec_eq hexec
    have hsame := (Run.calm_fail k code f w).context?_eq (Run.aside_fail k code f w)
    have hcode' := fun hd => Run.renderings_fail hc hframe hd code f
    rw [hw'] at hsame hcode'
    exact ⟨made, w', hrun ▸ hw', .of_failure? hframe hmade hcode htext hmemory, hsame, hcode'⟩
  cases x with
  | fail code f => exact hfail code f rfl rfl rfl (by simp)
  | io e f => exact hfail e.code _ rfl rfl (f.complete?_append _).symm (by simp)
  | noMemory =>
    obtain ⟨made, hmade⟩ : ∃ made, c.noMemory? = some made := by
      rw [Context.noMemory?, hframe]; exact ⟨_, rfl⟩
    have hexec := Run.exec_failNoMemory hc
    rw [hmade] at hexec
    obtain ⟨w', hw'⟩ := Run.exists_exec_eq hexec
    have hsame := (Run.calm_failNoMemory k w).context?_eq (Run.aside_failNoMemory k w)
    have hcode' := Run.renderings_failNoMemory hc hframe
    rw [hw'] at hsame hcode'
    exact ⟨made, w', hw', .of_noMemory? hframe hmade, hsame, fun _ => hcode'⟩

/-! ## Receiving a failure -/

namespace Run

variable {detail : Detail} {body : Run α} {call : ProtectedCall} {made : Failure} {w₁ w₂ : World}

/-- A call whose body has failed reports the failure, unless a release ends the process. -/
theorem exec_protect_failed (henter : (enterCall k detail).exec w = (.ok (.ok call), w₁))
    (hbody : body.exec w₁ = (.error (.failure made), w₂)) :
    ((protect k detail body).exec w).1 = .error .abort ∨
      ((protect k detail body).exec w).1 = .ok (.error made.report) := by
  have hprotect : (protect k detail body).exec w =
      (attempt body >>= fun how => leaveCall k call how).exec w₁ := exec_bind_ok henter
  have hattempt : (attempt body).exec w₁ = (.ok (.failed made), w₂) := by
    rw [exec_attempt, hbody]
    rfl
  rw [hprotect, exec_bind_ok hattempt]
  by_cases habort : ((leaveCall k call (.failed made) : Run (Except Report α)).exec w₂).1 = .error .abort
  · exact .inl habort
  · exact .inr (result_leaveCall_failed (Prod.eta _).symm habort)

/-- A call that finds no room for its boundary fails itself. -/
theorem exec_protect_full (hc : w.context? k = some c) (hp : c.tree.push.1 = none)
    (hmade : c.noMemory? = some made) :
    ((protect k detail body).exec w).1 = .ok (.error made.report) := by
  have hfail := exec_failNoMemory hc
  rw [hmade] at hfail
  obtain ⟨w₁, hw₁⟩ := exists_exec_eq hfail
  have henter : (enterCall k detail).exec w = (.ok (.error made.report), w₁) := by
    rw [enterCall, exec_bind_ok (exec_view hc _), exec_bind_ok (exec_pushScope?_full hc hp)]
    exact exec_bind_ok hw₁
  exact congrArg Prod.fst (exec_bind_ok henter)

end Run

/-- A failure, from where it is made to where it is reported.  It is made without a change to
    any context, and without rendering a message that is not wanted.  Whatever call receives
    it, of whatever context and at whatever time, reports what was fixed when it was made,
    unless the teardown ends the process before.  A call that finds no room for its boundary
    receives the failure that it makes itself. -/
theorem raise_reported (hc : w.context? k = some c) (hframe : c.frame = some frame) (x : Raise) :
    (∃ made w', (x.run k).exec w = (.ok made, w') ∧ (∀ j, w'.context? j = w.context? j) ∧
      (frame.detail = .code → w'.renderings = w.renderings) ∧
      ∀ {α : Type} {j : ContextId} {detail : Detail} {body : Run α} {u v v' : World}
          {call : ProtectedCall},
        (Run.enterCall j detail).exec u = (.ok (.ok call), v) →
        body.exec v = (.error (.failure made), v') →
        ((Run.protect j detail body).exec u).1 = .error .abort ∨
          ∃ report, ((Run.protect j detail body).exec u).1 = .ok (.error report) ∧
            Fixed x c frame.detail report) ∧
    ∀ {α : Type} {detail : Detail} {body : Run α}, x = .noMemory → c.tree.push.1 = none →
      ∃ report, ((Run.protect k detail body).exec w).1 = .ok (.error report) ∧
        Fixed x c frame.detail report := by
  constructor
  · obtain ⟨made, w', hexec, hfixed, hsame, hrenderings⟩ := x.exec_run hc hframe
    refine ⟨made, w', hexec, hsame, hrenderings, fun henter hbody => ?_⟩
    exact (Run.exec_protect_failed henter hbody).imp id fun h => ⟨made.report, h, hfixed⟩
  · rintro α detail body rfl hp
    obtain ⟨made, hmade⟩ : ∃ made, c.noMemory? = some made := by
      rw [Context.noMemory?, hframe]; exact ⟨_, rfl⟩
    exact ⟨made.report, Run.exec_protect_full hc hp hmade, .of_noMemory? hframe hmade⟩

/-- A body that gives the program another name, and then fails with a failure that it was
    given. -/
def renameAndFail (made : Failure) : Run Unit := do
  Run.setProgramName 0 "other"
  throw (.failure made)

/-- The theorem above for a failure that is made in a call that asks for messages, and
    received by one that does not. -/
theorem raise_reported_renameAndFail : ∃ u made report,
    ((Run.protect 0 .code (renameAndFail made)).exec u).1 = .ok (.error report) ∧
      report = ⟨2, some "open: No such file or directory (os error 2)", some "example"⟩ := by
  obtain ⟨w, hw⟩ : ∃ w, w = ((Run.enterCall 0 .message).exec (leftScope.exec .start).2).2 := ⟨_, rfl⟩
  obtain ⟨x, hx⟩ : ∃ x : Raise, x = .io (.os 2) (.rendered "open" false) := ⟨_, rfl⟩
  have hlive : (w.context? 0).map (fun c => (c.frame.map (·.detail), c.program)) =
      some (some .message, "example") := by subst hw; decide +kernel
  obtain ⟨c, hc, hdetail⟩ := Option.map_eq_some_iff.1 hlive
  simp only [Prod.mk.injEq, Option.map_eq_some_iff] at hdetail
  obtain ⟨⟨frame, hframe, hdetail⟩, hprogram⟩ := hdetail
  obtain ⟨⟨made, u, hexec, -, -, hreceived⟩, -⟩ := raise_reported hc hframe x
  have hmade : ((x.run 0).exec w).1 =
      .ok ⟨2, some "open: No such file or directory (os error 2)", some "example", 1⟩ := by
    subst hw hx; decide +kernel
  have hu : u = ((x.run 0).exec w).2 := by rw [hexec]
  rw [hexec] at hmade
  cases hmade
  have hcall : ((Run.enterCall 0 .code).exec u).1 = .ok (.ok ⟨⟨0, 3, 0⟩, ⟨0, 4, 0⟩, 2,
      some ⟨⟨0, 3, 0⟩, .message, 1⟩⟩) := by subst hu hw hx; decide +kernel
  obtain ⟨v, henter⟩ := Run.exists_exec_eq hcall
  have hbody : ((renameAndFail ⟨2, some "open: No such file or directory (os error 2)",
      some "example", 1⟩).exec ((Run.enterCall 0 .code).exec u).2).1 = .error (.failure
        ⟨2, some "open: No such file or directory (os error 2)", some "example", 1⟩) := by
    subst hu hw hx; decide +kernel
  rw [henter] at hbody
  obtain ⟨v', hbody⟩ := Run.exists_exec_eq hbody
  have hgoes : ((Run.protect 0 .code (renameAndFail ⟨2,
      some "open: No such file or directory (os error 2)", some "example", 1⟩)).exec u).1 ≠
        .error .abort := by subst hu hw hx; decide +kernel
  obtain ⟨report, hreport, hfixed⟩ := (hreceived henter hbody).resolve_left hgoes
  refine ⟨u, _, report, hreport, ?_⟩
  have hcode := hfixed.code
  have hname := (hfixed.program "example").2 ⟨hdetail, hprogram.symm⟩
  have htext := (hfixed.message "open: No such file or directory (os error 2)").2
    ⟨.inl hdetail, by subst hx; decide +kernel⟩
  obtain ⟨code, message, program⟩ := report
  subst hx
  simp only [Raise.code, IoError.code] at hcode
  rw [hcode, show message = _ from htext, show program = _ from hname]

end ScopedResources
