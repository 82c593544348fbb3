/-
  How an invocation ends, by what its command comes to.

  A command runs in a protected call, in a context of its own.  When it returns, what it has
  acquired is released with the context; when it fails, with the call, and the failure is
  the last thing on standard error.

  * `Host.Owes`: a host that is another one, but for what some releases give back.
  * `At.protect_returned`, `At.protect_failed`: the protected call, by its body.
  * `run_of_returned`, `run_of_reported`: the invocation, by its protected call.
  * `Invocation.EndsWith`: the exit status and the streams, `lastWords` on standard error;
    `endsWith_of_body` has them from what the command does in its call.
  * `Invocation.InCall`: the worlds in which a command begins.
-/
import ScopedResources.Command.Invocation
import ScopedResources.Proofs.Acting

namespace ScopedResources

/-! ## What a host is owed -/

/-- A host is what it was before, but for the descriptors that some releases close. -/
structure Host.Owes (base host : Host) (due : List (Due Release)) : Prop where
  closing : ∀ d ∈ due, d.release.Closing
  lends : base.Lends host (due.filterMap (·.release.descriptor?))

namespace Host.Owes

variable {base host : Host} {due : List (Due Release)} {i : Index}

theorem nothing (base : Host) : base.Owes base [] := ⟨by simp, base.lends_nothing⟩

/-- Running the releases leaves nothing owed. -/
theorem closes (h : base.Owes host due) : ∃ host', host.Closes (due.map (·.release)) host' ∧
    base.Lends host' [] ∧ host'.output = host.output ∧ host'.pipes = host.pipes := by
  have hall : (due.filterMap (·.release.descriptor?)).Perm
      ((due.map (·.release)).filterMap (·.descriptor?) ++ []) := by
    rw [List.append_nil, List.filterMap_map]
    exact .rfl
  exact h.lends.closes (List.forall_mem_map.2 h.closing) hall

theorem installed (h : base.Owes host due) (i : Index) (file : OpenFile) :
    base.Owes (host.installed file) (⟨i, .close host.freeNumber⟩ :: due) where
  closing := List.forall_mem_cons.2 ⟨trivial, h.closing⟩
  lends := h.lends.installed file

theorem place (h : base.Owes host due) (i : Index) (d : Descriptor) :
    base.Owes (host.place host.freeNumber d) (⟨i, .close host.freeNumber⟩ :: due) where
  closing := List.forall_mem_cons.2 ⟨trivial, h.closing⟩
  lends := h.lends.lend d

theorem set (h : base.Owes host due) {n : Nat} (hn : base.openFiles.size ≤ n) (file : OpenFile) :
    base.Owes { host with openFiles := host.openFiles.setIfInBounds n file } due :=
  ⟨h.closing, h.lends.set hn file⟩

theorem forget (h : base.Owes host due) (i : Index) (p : Payload) :
    base.Owes host (⟨i, .forget p⟩ :: due) where
  closing := List.forall_mem_cons.2 ⟨trivial, h.closing⟩
  lends := h.lends

theorem pipes (h : base.Owes host due) (pipes : Array Pipe) : base.Owes { host with pipes } due :=
  ⟨h.closing, h.lends.pipes pipes⟩

theorem output (h : base.Owes host due) (sink : Sink) : base.Owes { host with output := sink } due :=
  ⟨h.closing, h.lends.output sink⟩

end Host.Owes

/-! ## Protected calls -/

namespace World.At

open Run

variable {α : Type} {w w₁ w₂ : World} {k : ContextId}
  {nearer outer : List (Index × Forest Release)} {older inner x : Forest Release} {b p : Index}
  {frame : Option Frame} {program : String} {host host' : Host} {ran : List (Due Release)}
  {body : Run α}

/-- A protected call around a body that returns. -/
theorem protect_returned {a : α}
    (henter : (Run.enterCall k .message).exec w = (.ok (.ok ⟨p, b, 1, none⟩), w₁))
    (hbody : body.exec w₁ = (.ok a, w₂))
    (h : w₂.At k ⟨nearer ++ (b, older) :: (p, x) :: outer, inner, frame, program, host, ran⟩) :
    ∃ w', (protect k .message body).exec w = (.ok (.ok a), w') ∧
      w'.At k ⟨(p, x) :: outer, .scope b (.nest nearer inner) older, none, program, host, ran⟩ := by
  obtain ⟨w', hleave, h'⟩ := h.leaveCall_returned a
  exact ⟨w', exec_protect henter hbody rfl hleave, h'⟩

/-- A protected call around a body that fails. -/
theorem protect_failed {f : Failure}
    (henter : (Run.enterCall k .message).exec w = (.ok (.ok ⟨p, b, 1, none⟩), w₁))
    (hbody : body.exec w₁ = (.error (.failure f), w₂)) (hdepth : f.depth = 1)
    (h : w₂.At k ⟨nearer ++ (b, older) :: (p, x) :: outer, inner, frame, program, host, ran⟩)
    (hcloses : host.Closes ((Forest.nest nearer inner).due.map (·.release)) host') :
    ∃ w', (protect k .message body).exec w = (.ok (.error f.report), w') ∧
      w'.At k ⟨(p, x) :: outer, older, none, program, host',
        (Forest.nest nearer inner).due.reverse ++ ran⟩ := by
  obtain ⟨w', hleave, h'⟩ := h.leaveCall_failed (α := α) hcloses hdepth
  exact ⟨w', exec_protect henter hbody rfl hleave, h'⟩

end World.At

/-! ## Invocations -/

/-- The top scope of the first context. -/
def topScope : Index := ⟨0, 0, 0⟩

/-- A context that was just created has a top scope and nothing else. -/
theorem exists_at_newContext (program : String) (host : Host) (identity : String) (log : Option Log) :
    ∃ w, (Run.newContext program).exec (.new host identity log) = (.ok 0, w) ∧
      w.At 0 ⟨[(topScope, .nil)], .nil, none, program, host, []⟩ :=
  ⟨_, rfl, ⟨_, rfl, Tree.stands_new 0⟩, rfl, rfl, rfl⟩

namespace Invocation

variable {inv : Invocation} {command : Command} {config : Config} {filter : LogFilter} {w w' : World}
  {inner x : Forest Release} {p b : Index} {program : String} {host host' : Host}
  {ran : List (Due Release)}

/-- The world that an invocation begins in, without any context. -/
def world (inv : Invocation) (filter : LogFilter) : World :=
  .new inv.host inv.identity (some ⟨filter, inv.time⟩)

/-- An invocation whose command is executed. -/
theorem run_of_execute (hargs : Request.ofArguments? inv.arguments = some (.command command))
    (hset : inv.settings = .ok (config, filter)) {status : Nat}
    (hexec : (execute command config inv.programName).exec (inv.world filter) = (.ok status, w)) :
    inv.run = ⟨status, w.host⟩ := by
  have hrun : (execute command config inv.programName).run (inv.world filter) = (.ok status, w) :=
    hexec
  unfold run
  rw [hargs]
  dsimp only
  rw [hset]
  dsimp only
  rw [← world, hrun]

/-- A command that returns: what it holds is released with its context. -/
theorem run_of_returned (hargs : Request.ofArguments? inv.arguments = some (.command command))
    (hset : inv.settings = .ok (config, filter))
    (hnew : (Run.newContext inv.programName).exec (inv.world filter) = (.ok 0, w))
    (hprotect : (Run.protect 0 .message (command.execute 0 config)).exec w = (.ok (.ok ()), w'))
    (h : w'.At 0 ⟨[(p, x)], inner, none, program, host, ran⟩)
    (hcloses : host.Closes (inner.due.map (·.release)) host') :
    inv.run = ⟨successStatus, host'⟩ := by
  obtain ⟨w'', hdrop, rfl⟩ := h.dropContext hcloses
  refine run_of_execute hargs hset ?_
  rw [execute, Run.exec_bind_ok hnew, Run.exec_bind_ok hprotect]
  show (Run.dropContext 0 >>= fun _ => pure successStatus).exec w' = _
  rw [Run.exec_bind_ok hdrop]
  rfl

/-- A command that fails, with all that it held released by then. -/
theorem run_of_reported {report : Report}
    (hargs : Request.ofArguments? inv.arguments = some (.command command))
    (hset : inv.settings = .ok (config, filter))
    (hnew : (Run.newContext inv.programName).exec (inv.world filter) = (.ok 0, w))
    (hprotect : (Run.protect 0 .message (command.execute 0 config)).exec w = (.ok (.error report), w'))
    (h : w'.At 0 ⟨[(p, x)], .nil, none, program, host, ran⟩) :
    inv.run = fail host report.display := by
  obtain ⟨outcome, houtcome⟩ : ∃ outcome, outcome = fail host report.display := ⟨_, rfl⟩
  obtain ⟨told, htold⟩ : ∃ told : World, told = { w' with host := outcome.host } := ⟨_, rfl⟩
  have hat : told.At 0 ⟨[(p, x)], .nil, none, program, outcome.host, ran⟩ := by
    rw [htold]
    exact ⟨h.context, rfl, h.ran, h.names⟩
  obtain ⟨w'', hdrop, hhost⟩ := hat.dropContext (.nil _)
  have htell : (tell report).exec w' = (.ok outcome.status, told) := by
    have hw : w'.host = host := h.host
    rw [htold, houtcome, ← hw]
    rfl
  have hrun : inv.run = ⟨outcome.status, w''.host⟩ := by
    refine run_of_execute hargs hset ?_
    rw [execute, Run.exec_bind_ok hnew, Run.exec_bind_ok hprotect]
    show (tell report >>= fun status => Run.dropContext 0 >>= fun _ => pure status).exec w' = _
    rw [Run.exec_bind_ok htell, Run.exec_bind_ok hdrop]
    rfl
  rw [hrun, hhost, ← houtcome]

/-- The exit status when there is something to say about a failure: that of a panic, if standard
    error does not take it. -/
def faultStatus (inv : Invocation) : Nat :=
  if inv.host.error.condition = .working then failureStatus else panicStatus

theorem faultStatus_ne (inv : Invocation) : inv.faultStatus ≠ successStatus := by
  unfold faultStatus
  split <;> decide

theorem fail_eq (host : Host) (text : String) : (fail host text).host =
    { host with error := (fail host text).host.error } := by
  unfold fail complain
  rcases host.error.write (Utf8.encode (text ++ "\n")) <;> rfl

/-- What is said depends on standard error alone. -/
theorem error_fail (h : host.error = host'.error) (text : String) :
    (fail host text).host.error = (fail host' text).host.error := by
  unfold fail complain
  rw [h]
  rcases host'.error.write (Utf8.encode (text ++ "\n"))
  · exact h
  · rfl

theorem status_fail (h : host.error = inv.host.error) (text : String) :
    (fail host text).status = inv.faultStatus := by
  unfold fail complain faultStatus Sink.write
  rw [h]
  rcases inv.host.error.condition <;> rfl

/-! ## Ends -/

/-- How a command's body ends: it returns, or it fails with a message. -/
inductive Tells (program : String) : Except Stop Unit → Option String → Prop
  | returned : Tells program (.ok ()) none
  | failed (code : Int) (text : String) :
    Tells program (.error (.failure ⟨code, some text, some program, 1⟩)) (some text)

/-- What standard error holds at the end: a failure's message is the last line. -/
def lastWords (inv : Invocation) : Option String → Sink
  | none => inv.host.error
  | some text => (fail inv.host (inv.programName ++ ": " ++ text)).host.error

/-- An invocation ends with some output, and with a message if it fails; no descriptor is
    lost or left. -/
structure EndsWith (inv : Invocation) (fault : Option String) (output : Sink) : Prop where
  status : inv.run.status = if fault = none then successStatus else inv.faultStatus
  output : inv.run.host.output = output
  error : inv.run.host.error = inv.lastWords fault
  descriptors : ∀ fd, inv.run.host.descriptor? fd = inv.host.descriptor? fd

/-- The last line on standard error, where that keeps what is written to it. -/
theorem content_lastWords (hworking : inv.host.error.condition = .working) (text : String) :
    (inv.lastWords (some text)).content =
      inv.host.error.content ++ Utf8.encode (inv.programName ++ ": " ++ text ++ "\n") := by
  rw [lastWords, fail, complain, Sink.write, hworking]
  rfl

/-- Where no variable is set, the settings are the default ones. -/
theorem settings_of_unset (inv : Invocation) (hunset : ∀ name, inv.setting? name = none) :
    ∃ filter, inv.settings = .ok (.default, filter) := by
  obtain ⟨filter, hfilter⟩ := Option.isSome_iff_exists.1
    (show (LogFilter.parse? Config.default.logFilter).isSome = true by decide +kernel)
  have hlookup : inv.lookup = fun _ => none := funext fun name => by rw [lookup, hunset]; rfl
  have hload : (Config.load inv.lookup).1 = .ok .default := by rw [hlookup]; rfl
  refine ⟨filter, ?_⟩
  simp only [settings, hload, bind, Except.bind, hfilter]
  rfl

/-- The scene in which the body of the first call of an invocation begins. -/
def scene (inv : Invocation) (boundary : Index) : Scene :=
  ⟨[(boundary, .nil), (topScope, .nil)], .nil, some ⟨boundary, .message, 1⟩, inv.programName,
    inv.host, []⟩

/-- The world in which the body of the command begins: its context is there, and its call has
    begun. -/
def InCall (inv : Invocation) (w : World) : Prop :=
  ∃ log call, (Run.enterCall 0 .message).exec
    ((Run.newContext inv.programName).exec (.new inv.host inv.identity log)).2 = (.ok (.ok call), w)

theorem InCall.at (h : inv.InCall w) : ∃ b, w.At 0 (inv.scene b) := by
  obtain ⟨log, call, henter⟩ := h
  obtain ⟨w₀, hnew, h₀⟩ := exists_at_newContext inv.programName inv.host inv.identity log
  obtain ⟨b, w₁, henter', h₁⟩ := h₀.enterCall (by decide)
  rw [hnew] at henter
  obtain rfl : w = w₁ := congrArg Prod.snd (henter.symm.trans henter')
  exact ⟨b, h₁⟩

theorem exists_inCall (inv : Invocation) : ∃ w, inv.InCall w := by
  obtain ⟨w₀, hnew, h₀⟩ := exists_at_newContext inv.programName inv.host inv.identity none
  obtain ⟨b, w₁, henter, -⟩ := h₀.enterCall (by decide)
  exact ⟨w₁, none, _, by rw [hnew]; exact henter⟩

/-- What a command does in its call tells how the invocation ends. -/
theorem endsWith_of_body {fault : Option String} {output : Sink}
    (hargs : Request.ofArguments? inv.arguments = some (.command command))
    (hset : inv.settings = .ok (config, filter))
    (hbody : ∀ b w, w.At 0 (inv.scene b) → ∃ r nearer inner frame host ran w',
      (command.execute 0 config).exec w = (r, w') ∧ Tells inv.programName r fault ∧
        w'.At 0 ⟨nearer ++ [(b, .nil), (topScope, .nil)], inner, frame, inv.programName, host, ran⟩ ∧
          inv.host.Owes host (Forest.nest nearer inner).due ∧ host.output = output) :
    inv.EndsWith fault output := by
  obtain ⟨w, hnew, h⟩ :=
    exists_at_newContext inv.programName inv.host inv.identity (some ⟨filter, inv.time⟩)
  obtain ⟨b, w₁, henter, h₁⟩ := h.enterCall (by decide)
  obtain ⟨r, nearer, inner, frame, host, ran, w₂, hexec, htells, h₂, howes, houtput⟩ := hbody b w₁ h₁
  obtain ⟨host', hcloses, hlends, houtput', -⟩ := howes.closes
  cases htells with
  | returned =>
    obtain ⟨w₃, hprotect, h₃⟩ := World.At.protect_returned henter hexec h₂
    have hdue : (Forest.scope b (Forest.nest nearer inner) .nil).due =
        (Forest.nest nearer inner).due :=
      List.append_nil _
    have hrun := run_of_returned hargs hset hnew hprotect h₃ (hdue ▸ hcloses)
    constructor
    · rw [hrun]; rfl
    · rw [hrun]; exact houtput'.trans houtput
    · rw [hrun]; exact hlends.error
    · rw [hrun]; exact fun fd => hlends.other fd List.not_mem_nil
  | failed code text =>
    obtain ⟨w₃, hprotect, h₃⟩ := World.At.protect_failed henter hexec rfl h₂ hcloses
    have hrun := run_of_reported hargs hset hnew hprotect h₃
    constructor
    · rw [hrun]; exact status_fail hlends.error _
    · rw [hrun, fail_eq]; exact houtput'.trans houtput
    · rw [hrun]; exact error_fail hlends.error _
    · rw [hrun, fail_eq]; exact fun fd => hlends.other fd List.not_mem_nil

end Invocation

end ScopedResources
