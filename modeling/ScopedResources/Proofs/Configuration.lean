/-
  The configuration as JSON, there and back.

  A configuration is written as an object with a member for each of its settings.
  It can be written if its lock path is a text, and then it is read back as it
  was, whatever its texts are.

  * `Config.parse?_render`: what is written is read back, also with a line's end
    after it.
  * `Config.render_error_iff`: what cannot be written has a lock path that is no
    text.
  * `config_round_trip`: what the program shows is read back as what it loaded.
-/
import ScopedResources.Command.Invocation
import ScopedResources.Proofs.JsonText
import ScopedResources.Proofs.Releasing

namespace ScopedResources

namespace Config

variable {config : Config} {json : Json} {text : String}

theorem toJson?_eq_some_iff : config.toJson? = some json ↔
    ∃ path, Utf8.encode path = config.debugLockPath ∧ .record [
      ("log_filter", .text config.logFilter),
      ("debug_lock_path", .text path),
      ("ignore_sigpipe", .bool config.ignoreSigpipe),
      ("source", sourceToJson config.source)] = json := by
  simp only [toJson?, Option.bind_eq_bind, Option.bind_eq_some_iff, Utf8.decode?_eq_some_iff,
    Option.pure_def, Option.some.injEq]

theorem textual_of_toJson? (h : config.toJson? = some json) : json.Textual := by
  obtain ⟨path, -, rfl⟩ := toJson?_eq_some_iff.1 h
  rcases config with ⟨filter, path, flag, _ | names⟩ <;>
    simp [Json.record, Json.text, sourceToJson, Json.Textual, Json.TextualMembers]

theorem sourceOf?_sourceToJson (source : ConfigSource) :
    sourceOf? (sourceToJson source) = some source := by
  cases source <;> rfl

/-- The members of the object are the settings of the configuration. -/
theorem ofJson?_of_toJson? (h : config.toJson? = some json) : ofJson? json = some config := by
  obtain ⟨path, hpath, rfl⟩ := toJson?_eq_some_iff.1 h
  have hsource := sourceOf?_sourceToJson config.source
  simp [Json.record, Json.text, ofJson?, only?, ofSettings?, textOf?, flagOf?, hsource,
    Path.ofText, hpath]

theorem render_eq_ok_iff : config.render = .ok text ↔
    ∃ json, config.toJson? = some json ∧ json.pretty = text := by
  unfold render
  rcases config.toJson? with _ | json <;> simp

/-- What is written is read back, also with space after it. -/
theorem parse?_render (h : config.render = .ok text) {s : String}
    (hspace : Json.Blank s.toList) : parse? (text ++ s) = some config := by
  obtain ⟨json, hjson, rfl⟩ := render_eq_ok_iff.1 h
  rw [parse?, Json.read_pretty (textual_of_toJson? hjson) hspace]
  exact ofJson?_of_toJson? hjson

theorem exists_render {path : String} (h : Utf8.encode path = config.debugLockPath) :
    ∃ text, config.render = .ok text :=
  ⟨_, render_eq_ok_iff.2 ⟨_, toJson?_eq_some_iff.2 ⟨path, h, rfl⟩, rfl⟩⟩

/-- What cannot be written has a lock path that is no text. -/
theorem render_error_iff : (∃ e, config.render = .error e) ↔
    ∀ path, Utf8.encode path ≠ config.debugLockPath := by
  constructor
  · rintro ⟨e, he⟩ path hpath
    obtain ⟨text, htext⟩ := exists_render hpath
    rw [he] at htext; cases htext
  · intro hnone
    rcases hrender : config.render with e | text
    · exact ⟨e, rfl⟩
    · obtain ⟨json, hjson, -⟩ := render_eq_ok_iff.1 hrender
      obtain ⟨path, hpath, -⟩ := toJson?_eq_some_iff.1 hjson
      exact absurd hpath (hnone path)

end Config

/-! ## Showing it -/

/-- Standard output is open on the output of the process, which keeps what is
    written to it. -/
structure Host.Prints (host : Host) : Prop where
  opened : ∃ d file, host.descriptor? 1 = some d ∧ host.openFiles[d.openFile]? = some file ∧
    file.status.access.mayWrite = true ∧ file.target = .stream .output
  working : host.output.condition = .working

/-- A host after some bytes were written to the output. -/
def Host.printed (host : Host) (bytes : Bytes) : Host :=
  { host with output := { host.output with content := host.output.content ++ bytes } }

theorem Host.Prints.write {host : Host} (h : host.Prints) (bytes : Bytes) :
    (Host.write 1 bytes).exec host = (.ok bytes.length, host.printed bytes) := by
  obtain ⟨d, file, hd, hfile, hmay, htarget⟩ := h.opened
  have hsink : host.output.write bytes =
      .ok { host.output with content := host.output.content ++ bytes } := by
    simp only [Sink.write, h.working]
  have hopened : (Host.opened 1).exec host = (.ok (d.openFile, file), host) := by
    rw [Host.opened, Host.exec_get_bind, hd]
    dsimp only
    rw [hfile]
    rfl
  rw [Host.write, Host.exec_bind, hopened]
  dsimp only
  rw [if_neg (by rw [hmay]; decide), Host.exec_get_bind, htarget]
  dsimp only
  rw [hsink]
  rfl

/-- The only context of a world, and a host that is as it was but for its log. -/
structure Showing (c : Context) (host : Host) (w : World) : Prop where
  context : w.context? 0 = some c
  host : w.host = { host with error := w.host.error }

namespace Showing

open Run

variable {w : World} {c : Context} {host : Host}

theorem record (h : Showing c host w) (e : Event) : Showing c host (w.record e) :=
  ⟨by rw [World.context?, contexts_record]; exact h.context, (w.host_record e).trans (by rw [h.host])⟩

theorem change {α : Type} (h : Showing c host w) (f : Context → α × Context) :
    ∃ w', (onContext 0 f).exec w = (.ok (f c).1, w') ∧ Showing (f c).2 host w' := by
  refine ⟨(w.onContext 0 f).2, by rw [exec_onContext, onContext_of_context? h.context], ?_, ?_⟩
  · rw [onContext_of_context? h.context, context?_setIfInBounds,
      if_pos ⟨rfl, lt_size_of_context? h.context⟩]
  · rw [onContext_of_context? h.context]
    exact h.host

end Showing

namespace Run

variable {α β : Type} {a : α} {b : β} {c c' c'' : Context} {host host' host'' : Host}

/-- A run that returns a value, and changes the context and the host as it is said. -/
def Leaves (run : Run α) (c : Context) (host : Host) (a : α) (c' : Context) (host' : Host) : Prop :=
  ∀ w, Showing c host w → ∃ w', run.exec w = (.ok a, w') ∧ Showing c' host' w'

theorem leaves_pure (a : α) : Leaves (pure a) c host a c host :=
  fun w h => ⟨w, rfl, h⟩

theorem leaves_log (e : Event) : Leaves (log e) c host () c host :=
  fun _ h => ⟨_, rfl, h.record e⟩

theorem leaves_view (f : Context → α) : Leaves (view 0 f) c host (f c) c host :=
  fun w h => ⟨w, exec_view h.context f, h⟩

theorem leaves_onContext (f : Context → α × Context) :
    Leaves (onContext 0 f) c host (f c).1 (f c).2 host :=
  fun _ h => h.change f

theorem leaves_onTree (f : Tree Release → α × Tree Release) :
    Leaves (onTree 0 f) c host (f c.tree).1 { c with tree := (f c.tree).2 } host :=
  fun _ h => h.change fun c => ((f c.tree).1, { c with tree := (f c.tree).2 })

theorem leaves_write (h : host.Prints) (bytes : Bytes) :
    Leaves (Run.host (Host.write 1 bytes)) c host (.ok bytes.length) c (host.printed bytes) := by
  intro w hw
  have hprints : w.host.Prints := by rw [hw.host]; exact ⟨h.opened, h.working⟩
  have hexec := hprints.write bytes
  refine ⟨{ w with host := w.host.printed bytes }, ?_, hw.context, ?_⟩
  · show (Except.ok ((Host.write 1 bytes).exec w.host).1,
      { w with host := ((Host.write 1 bytes).exec w.host).2 }) = _
    rw [hexec]
  · dsimp only
    rw [hw.host]
    rfl

theorem Leaves.bind {x : Run α} {f : α → Run β} (hx : Leaves x c host a c' host')
    (hf : Leaves (f a) c' host' b c'' host'') : Leaves (x >>= f) c host b c'' host'' := by
  intro w h
  obtain ⟨w₁, hexec, h₁⟩ := hx w h
  rw [exec_bind_ok hexec]
  exact hf w₁ h₁

/-- A context in a protected call that is its first one. -/
def inFirstCall (program : String) (tree : Tree Release) : Context :=
  ⟨tree, some ⟨⟨0, 1, 0⟩, .message, 1⟩, program⟩

def firstCall : ProtectedCall := ⟨⟨0, 0, 0⟩, ⟨0, 1, 0⟩, 1, none⟩

theorem leaves_enterCall (program : String) :
    Leaves (enterCall 0 .message) (.new 0 program) host (.ok firstCall)
      (inFirstCall program (Tree.new 0).push.2) host := by
  have hpush : Leaves (pushScope? 0) (.new 0 program) host (some ⟨0, 1, 0⟩)
      { Context.new 0 program with tree := (Tree.new 0).push.2 } host :=
    (leaves_view _).bind <| (leaves_onTree Tree.push).bind <| (leaves_log _).bind <|
      leaves_pure _
  exact (leaves_view _).bind <| hpush.bind <| (leaves_view _).bind <| (leaves_view _).bind <|
    (leaves_onContext _).bind <| (leaves_log _).bind <| leaves_pure _

/-- A tree in which a text was formatted in the scope of the first call. -/
def withText (text : String) : Tree Release :=
  ((Tree.new 0).push.2.reserve.2.commit ⟨0, 2, 0⟩ (.forget (.text text))).2

theorem leaves_format (program text : String) :
    Leaves (format 0 (.rendered text false)) (inFirstCall program (Tree.new 0).push.2) host
      ⟨0, 2, 0⟩ (inFirstCall program (withText text)) host := by
  have hreserve : Leaves (reserve 0) (inFirstCall program (Tree.new 0).push.2) host ⟨0, 2, 0⟩
      (inFirstCall program (Tree.new 0).push.2.reserve.2) host :=
    (leaves_onTree Tree.reserve).bind <| leaves_pure _
  have hcommit : Leaves (commit 0 ⟨0, 2, 0⟩ (.forget (.text text)))
      (inFirstCall program (Tree.new 0).push.2.reserve.2) host ()
      (inFirstCall program (withText text)) host :=
    (leaves_onTree (·.commit ⟨0, 2, 0⟩ (.forget (.text text)))).bind <| leaves_pure _
  exact hreserve.bind <| hcommit.bind <| leaves_pure _

/-- What is written to an output that takes all of it is written in one go. -/
theorem leaves_writeAll (h : host.Prints) {bytes : Bytes} (hne : bytes ≠ []) :
    Leaves (writeAll 0 Command.standardOutput bytes) c host () c (host.printed bytes) := by
  obtain ⟨n, hn⟩ : ∃ n, bytes.length = n + 1 :=
    ⟨bytes.length - 1, by have := List.length_pos_iff.2 hne; omega⟩
  have hdrop : bytes.drop (n + 1) = [] := by rw [← hn, List.drop_length]
  have hrest : Leaves (writeWithin 1 n []) c (host.printed bytes) (.ok ()) c (host.printed bytes) := by
    cases n <;> exact leaves_pure _
  have hwrite : Leaves (writeWithin 1 bytes.length bytes) c host (.ok ()) c (host.printed bytes) := by
    have hfirst := leaves_write (c := c) h bytes
    rw [hn] at hfirst ⊢
    rw [writeWithin, if_neg hne]
    refine hfirst.bind ?_
    rwa [← hdrop] at hrest
  exact (leaves_pure ()).bind <| hwrite.bind <| leaves_pure _

theorem leaves_showConfig (h : host.Prints) (program : String) {config : Config} {text : String}
    (hrender : config.render = .ok text) :
    Leaves (Command.showConfig 0 config) (inFirstCall program (Tree.new 0).push.2) host ()
      (inFirstCall program (withText (text ++ "\n")))
      (host.printed (Utf8.encode (text ++ "\n"))) := by
  have hne : Utf8.encode (text ++ "\n") ≠ [] := by
    simp [Utf8.encode, Utf8.encodeChar]
  have hwrite : Leaves (writeAll 0 Command.standardOutput
      (Utf8.encode (((inFirstCall program (withText (text ++ "\n"))).text? ⟨0, 2, 0⟩).getD "")))
      (inFirstCall program (withText (text ++ "\n"))) host ()
      (inFirstCall program (withText (text ++ "\n")))
      (host.printed (Utf8.encode (text ++ "\n"))) :=
    leaves_writeAll h hne
  rw [Command.showConfig, hrender]
  exact (leaves_format program (text ++ "\n")).bind <| (leaves_view _).bind hwrite

theorem Leaves.attempt {x : Run α} (hx : Leaves x c host a c' host') :
    Leaves (Run.attempt x) c host (.returned a) c' host' := by
  intro w h
  obtain ⟨w', hexec, h'⟩ := hx w h
  exact ⟨w', by rw [exec_attempt, hexec]; rfl, h'⟩

/-- A protected call that is the first one of its context, around a body that
    returns. -/
theorem Leaves.protect {body : Run α} {program : String} {tree : Tree Release}
    (hbody : Leaves body (inFirstCall program (Tree.new 0).push.2) host a
      (inFirstCall program tree) host') :
    Leaves (Run.protect 0 .message body) (.new 0 program) host (.ok a)
      ⟨tree.enter ⟨0, 0, 0⟩, none, program⟩ host' := by
  have hleave : Leaves (leaveCall 0 firstCall (.returned a)) (inFirstCall program tree) host' (.ok a)
      ⟨tree.enter ⟨0, 0, 0⟩, none, program⟩ host' :=
    (leaves_onContext _).bind <| (leaves_onTree fun t => ((), t.enter ⟨0, 0, 0⟩)).bind <|
      (leaves_log _).bind <| leaves_pure _
  exact (leaves_enterCall program).bind <| hbody.attempt.bind hleave

theorem shows_withText (text : String) : (withText text).Shows (.scope ⟨0, 0, 0⟩
    (.scope ⟨0, 1, 0⟩ (.record ⟨0, 2, 0⟩ (some (.forget (.text text))) .nil) .nil) .nil) := by
  obtain ⟨hpush, -⟩ := (Tree.shows_new 0).push (ρ := Release) (i := ⟨0, 1, 0⟩) rfl
  obtain ⟨hreserve, -⟩ := hpush.reserve (i := ⟨0, 2, 0⟩) rfl
  exact hreserve.commit (i := ⟨0, 2, 0⟩) (r := .forget (.text text)) rfl

theorem destroy_withText (text : String) : ∃ t',
    ((withText text).enter ⟨0, 0, 0⟩).destroy ((withText text).enter ⟨0, 0, 0⟩).top =
      (some ⟨[⟨⟨0, 2, 0⟩, .forget (.text text)⟩], 2⟩, t') := by
  obtain ⟨t', hrun, -⟩ := ((shows_withText text).enter ⟨0, 0, 0⟩).destroy_top rfl
  exact ⟨t', hrun⟩

/-- Dropping a context that holds nothing but a text, in the scope of a call. -/
theorem exec_dropContext_text {w : World} {text program : String}
    (h : Showing ⟨(withText text).enter ⟨0, 0, 0⟩, none, program⟩ host w) :
    ∃ w', (dropContext 0).exec w = (.ok (), w') ∧ w'.host = { host with error := w'.host.error } := by
  obtain ⟨n, hn⟩ := Nat.exists_eq_succ_of_ne_zero (Nat.ne_of_gt (lt_size_of_context? h.context))
  have htake : (takeContext 0).exec w =
      (.ok (w.context? 0), { w with contexts := w.contexts.setIfInBounds 0 none }) := rfl
  obtain ⟨t', hdestroy⟩ := destroy_withText text
  rw [dropContext, exec_bind_ok (exec_get w), hn, dropWithin, exec_bind_ok htake, h.context]
  dsimp only
  rw [hdestroy]
  exact ⟨_, rfl, (World.host_record _ _).trans (by dsimp only; rw [h.host])⟩

end Run

/-- A configuration that can be written is shown on standard output. -/
theorem exec_execute_config {host : Host} (h : host.Prints) {config : Config} {text : String}
    (hrender : config.render = .ok text) (program identity : String) (log : Option Log) :
    ∃ w, (Invocation.execute .config config program).exec (.new host identity log) =
        (.ok Invocation.successStatus, w) ∧
      w.host.output = (host.printed (Utf8.encode (text ++ "\n"))).output := by
  obtain ⟨w₁, hw₁⟩ : ∃ w, w = ((Run.newContext program).exec (.new host identity log)).2 := ⟨_, rfl⟩
  have hnew : (Run.newContext program).exec (.new host identity log) = (.ok 0, w₁) := by
    rw [hw₁]; rfl
  have hshowing : Showing (.new 0 program) host w₁ := by rw [hw₁]; exact ⟨rfl, rfl⟩
  obtain ⟨w₂, hprotect, h₂⟩ := (Run.leaves_showConfig h program hrender).protect w₁ hshowing
  have hprotect : (Run.protect 0 .message (Command.config.execute 0 config)).exec w₁ =
    (.ok (.ok ()), w₂) := hprotect
  obtain ⟨w₃, hdrop, h₃⟩ := Run.exec_dropContext_text h₂
  refine ⟨w₃, ?_, by rw [h₃]⟩
  rw [Invocation.execute, Run.exec_bind_ok hnew, Run.exec_bind_ok hprotect]
  show (Run.dropContext 0 >>= fun _ => pure Invocation.successStatus).exec w₂ = _
  rw [Run.exec_bind_ok hdrop]
  rfl

/-! ## What is loaded -/

namespace Config

variable {α β : Type} {asked asked' : List String} {lookup : Lookup}

theorem run_bind_ok {x : Loading α} {f : α → Loading β} {b : β}
    (h : (x >>= f).run asked = (.ok b, asked')) :
    ∃ a asked₁, x.run asked = (.ok a, asked₁) ∧ (f a).run asked₁ = (.ok b, asked') := by
  change StateT.run (ExceptT.run (x >>= f)) asked = _ at h
  rw [ExceptT.run_bind, StateT.run_bind] at h
  rcases hx : StateT.run x.run asked with ⟨e | a, asked₁⟩
  · rw [hx] at h
    cases h
  · rw [hx] at h
    exact ⟨a, asked₁, hx, h⟩

/-- A setting is the default one, or was read from the value of its variable, whose name
    it keeps then. -/
theorem run_setting {name : String} {byDefault : α} {read : String → Except SetupError α}
    {result : α × List String} (h : (setting lookup name byDefault read).run asked = (.ok result, asked')) :
    lookup name = none ∧ result = (byDefault, []) ∨
      ∃ value, lookup name = some value ∧ read value = .ok result.1 ∧ result.2 = [name] := by
  obtain ⟨value?, asked₁, hask, h⟩ := run_bind_ok h
  cases hask
  rcases hset : lookup name with _ | value
  · rw [hset] at h
    cases h
    exact .inl ⟨rfl, rfl⟩
  · rw [hset] at h
    obtain ⟨a, asked₂, hread, h⟩ := run_bind_ok h
    rcases hvalue : read value with e | a'
    · rw [hvalue] at hread; cases hread
    · rw [hvalue] at hread; cases hread
      cases h
      exact .inr ⟨value, rfl, hvalue, rfl⟩

/-- A lock path that was loaded is a text. -/
theorem exists_path_of_load {config : Config} (h : (load lookup).1 = .ok config) :
    ∃ path, Utf8.encode path = config.debugLockPath := by
  have hload : (loading lookup).run [] = (.ok config, (load lookup).2) := Prod.ext h rfl
  obtain ⟨filter, asked₁, -, hload⟩ := run_bind_ok hload
  obtain ⟨path, asked₂, hpath, hload⟩ := run_bind_ok hload
  obtain ⟨flag, asked₃, -, hload⟩ := run_bind_ok hload
  cases hload
  rcases run_setting hpath with ⟨-, rfl⟩ | ⟨value, -, hvalue, -⟩
  · exact ⟨"/tmp/unwound.lock", rfl⟩
  · refine ⟨value, ?_⟩
    unfold readLockPath at hvalue
    split at hvalue
    · cases hvalue
    · exact Except.ok.inj hvalue

end Config

/-! ## There and back -/

/-- An invocation that is told to show its configuration, on a host that prints. -/
theorem Invocation.run_config {inv : Invocation} {config : Config} {filter : LogFilter}
    {text : String} (hasked : Request.ofArguments? inv.arguments = some (.command .config))
    (hset : inv.settings = .ok (config, filter)) (hprints : inv.host.Prints)
    (hrender : config.render = .ok text) :
    inv.run.status = Invocation.successStatus ∧
      inv.run.host.output.content =
        inv.host.output.content ++ Utf8.encode (text ++ "\n") := by
  obtain ⟨w, hexec, houtput⟩ := exec_execute_config hprints hrender inv.programName inv.identity
    (some ⟨filter, inv.time⟩)
  have hrun : inv.run = ⟨Invocation.successStatus, w.host⟩ := by
    rw [Invocation.run, hasked]
    dsimp only
    rw [hset]
    show (match (Invocation.execute .config config inv.programName).exec
        (.new inv.host inv.identity (some ⟨filter, inv.time⟩)) with
      | (.ok status, world) => Outcome.mk status world.host
      | (.error _, world) => Outcome.mk Invocation.abortStatus world.host) = _
    rw [hexec]
  rw [hrun]
  exact ⟨rfl, by rw [houtput]; rfl⟩

theorem Invocation.load_of_settings {inv : Invocation} {config : Config} {filter : LogFilter}
    (hset : inv.settings = .ok (config, filter)) : (Config.load inv.lookup).1 = .ok config := by
  simp only [Invocation.settings, bind, Except.bind] at hset
  rcases hload : (Config.load inv.lookup).1 with e | loaded
  · rw [hload] at hset
    cases hset
  · rw [hload] at hset
    dsimp only at hset
    split at hset
    · cases hset
      rfl
    · cases hset

/-- A configuration whose lock path is a text is written, and what is written is read back
    as the same configuration; one whose lock path is no text is not written.  When
    the program shows its configuration, what it prints is the text of the one that
    it has loaded, and is read back as that one. -/
theorem config_round_trip :
    (∀ (config : Config) (path : String), Utf8.encode path = config.debugLockPath →
      ∃ text, config.render = .ok text ∧ Config.parse? text = some config) ∧
    (∀ config : Config, (∃ e, config.render = .error e) ↔
      ∀ path, Utf8.encode path ≠ config.debugLockPath) ∧
    ∀ (inv : Invocation) (config : Config) (filter : LogFilter),
      Request.ofArguments? inv.arguments = some (.command .config) →
      inv.settings = .ok (config, filter) → inv.host.Prints →
      (Config.load inv.lookup).1 = .ok config ∧ inv.run.status = Invocation.successStatus ∧
        ∃ text printed, config.render = .ok text ∧ Utf8.decode? printed = some (text ++ "\n") ∧
          inv.run.host.output.content = inv.host.output.content ++ printed ∧
          (Utf8.decode? printed).bind Config.parse? = some config := by
  have hback : ∀ {config : Config} {text : String}, config.render = .ok text →
      Config.parse? text = some config := by
    intro config text hrender
    have hparse := Config.parse?_render hrender (s := "") (by simp [Json.Blank])
    rwa [String.append_empty] at hparse
  refine ⟨fun config path hpath => ?_, fun config => Config.render_error_iff,
    fun inv config filter hasked hset hprints => ?_⟩
  · obtain ⟨text, hrender⟩ := Config.exists_render hpath
    exact ⟨text, hrender, hback hrender⟩
  · have hload := Invocation.load_of_settings hset
    obtain ⟨path, hpath⟩ := Config.exists_path_of_load hload
    obtain ⟨text, hrender⟩ := Config.exists_render hpath
    obtain ⟨hstatus, hprinted⟩ := Invocation.run_config hasked hset hprints hrender
    refine ⟨hload, hstatus, text, _, hrender, Utf8.decode?_encode _, hprinted, ?_⟩
    rw [Utf8.decode?_encode, Option.bind_some]
    exact Config.parse?_render hrender (by simp [Json.Blank, Json.isSpace])

/-- A configuration of which each text has to be escaped somewhere. -/
def escapedConfig : Config where
  logFilter := "a\"b\\c\n\x01"
  debugLockPath := Path.ofText "/tmp/\u00fc\t\u2603"
  ignoreSigpipe := false
  source := .environment "UNWOUND_LOG,\""

/-- An invocation that shows the configuration, where no variable is set. -/
def showingDefault : Invocation where
  calledAs := Path.ofText "unwound"
  arguments := [Utf8.encode "config"]
  setting? := fun _ => none
  host := .new .standard
  identity := "0001"
  time := "-"

/-- The theorem above for a configuration with escapes in it, and for one invocation. -/
theorem config_round_trip_escapes :
    (∃ text, escapedConfig.render = .ok text ∧ Config.parse? text = some escapedConfig) ∧
      (∃ e, ({ escapedConfig with debugLockPath := [0xFF] } : Config).render = .error e) ∧
      ∃ printed, showingDefault.run.host.output.content = printed ∧
        (Utf8.decode? printed).bind Config.parse? = some Config.default := by
  obtain ⟨hread, hfails, hshows⟩ := config_round_trip
  obtain ⟨filter, hset⟩ : ∃ filter, showingDefault.settings = .ok (Config.default, filter) := by
    obtain ⟨filter, hfilter⟩ := Option.isSome_iff_exists.1
      (show (LogFilter.parse? Config.default.logFilter).isSome = true by decide +kernel)
    refine ⟨filter, ?_⟩
    have hload : (Config.load showingDefault.lookup).1 = .ok Config.default := rfl
    simp only [Invocation.settings, hload, bind, Except.bind, hfilter]
    rfl
  have hprints : showingDefault.host.Prints := ⟨⟨_, _, rfl, rfl, by decide, rfl⟩, rfl⟩
  obtain ⟨-, -, text, printed, -, -, hcontent, hparse⟩ := hshows showingDefault .default filter
    (by decide +kernel) hset hprints
  refine ⟨hread escapedConfig "/tmp/\u00fc\t\u2603" rfl, (hfails _).2 ?_, printed, ?_, hparse⟩
  · exact Utf8.decode?_eq_none_iff.1 (by decide +kernel)
  · rw [hcontent]; rfl

end ScopedResources
