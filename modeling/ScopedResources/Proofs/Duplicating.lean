/-
  Reading a file through a duplicate of its descriptor.

  The duplicate is closed on its own, before anything is written, and the descriptor it was
  made from stays open.  All in all nothing is different from copying the one file, but for
  the number of the descriptor that a failure to read tells.

  * `Command.readDuplicate` is the part of the command before it writes;
    `At.readDuplicate` and `At.readDuplicate_refused` are what it does.
  * `Invocation.endsWith_duplicate`: how the command ends.
  * `dup_agrees_with_cat`: it ends as copying does.
-/
import ScopedResources.Proofs.Copying

namespace ScopedResources

/-- A descriptor that is closed is owed no longer. -/
theorem Host.Owes.closed {base host : Host} {i : Index} {fd : Int} {due : List (Due Release)}
    (h : base.Owes host (⟨i, .close fd⟩ :: due)) : base.Owes (host.closed fd) due :=
  ⟨(List.forall_mem_cons.1 h.closing).2, Host.Lends.closed h.lends⟩

/-- Reads a file through a duplicate, which is closed then; gives the descriptor of the file,
    that of the duplicate, and what was read. -/
def Command.readDuplicate (k : ContextId) (file : Bytes) : Run (Nat × Nat × Bytes) := do
  let fd ← Run.openFile k file forReading 0
  let copy ← Run.duplicateHandle k fd
  let bytes ← Run.readToEnd k copy.value
  let _ ← Run.destroyHandle k copy
  return (fd, copy.value, bytes)

theorem Command.copyThroughDuplicate_eq (k : ContextId) (file : Bytes) :
    copyThroughDuplicate k file = readDuplicate k file >>= fun (fd, _, bytes) =>
      Run.blockingMode k fd >>= fun _ => Run.writeAll k standardOutput bytes := by
  simp only [copyThroughDuplicate, readDuplicate, bind_assoc, pure_bind]

/-! ## Two descriptors on one open file -/

namespace Host

variable {h base host : Host} {file : Bytes} {id : FileId}

/-- The descriptor that a duplicate gets, where a file was opened for it. -/
def copyNumber (h : Host) (id : FileId) : Nat :=
  (h.installed (freshFile id)).freeNumber

/-- A host after a file was opened, and the descriptor duplicated. -/
def duplicating (h : Host) (id : FileId) : Host :=
  (h.installed (freshFile id)).place (h.copyNumber id) ⟨h.openFiles.size, true⟩

theorem refers_duplicating (h : Host) (id : FileId) :
    (h.duplicating id).Refers h.freeNumber h.openFiles.size (freshFile id) :=
  (h.refers_installed (freshFile id)).place _

theorem refers_copyNumber (h : Host) (id : FileId) :
    (h.duplicating id).Refers (h.copyNumber id) h.openFiles.size (freshFile id) :=
  refers_freeNumber (h.refers_installed (freshFile id)).file true

/-- The two descriptors are different. -/
theorem freeNumber_ne_copyNumber (h : Host) (id : FileId) :
    (h.freeNumber : Int) ≠ h.copyNumber id := fun heq =>
  (h.installed (freshFile id)).not_isOpen_freeNumber (heq ▸ (h.refers_installed (freshFile id)).isOpen)

theorem owes_duplicating (h : Host) (id : FileId) (i j : Index) :
    h.Owes (h.duplicating id) [⟨j, .close (h.copyNumber id)⟩, ⟨i, .close h.freeNumber⟩] :=
  ((Owes.nothing h).installed i (freshFile id)).place j ⟨h.openFiles.size, true⟩

theorem output_duplicating (h : Host) (id : FileId) : (h.duplicating id).output = h.output := by
  rw [duplicating, place_eq]
  exact h.output_installed (freshFile id)

end Host

namespace World.At

open Run

variable {w : World} {k : ContextId} {p b : Index} {x : Forest Release}
  {outer : List (Index × Forest Release)} {program : String} {host : Host} {ran : List (Due Release)}
  {file : Bytes} {id : FileId} {node : FileNode} {content : Bytes}

/-- A file is opened, and a handle on a duplicate made. -/
theorem openDuplicate (h : w.At k ⟨(p, x) :: outer, .nil, some ⟨b, .message, 1⟩, program, host, ran⟩)
    (hroom : (Forest.around ((p, x) :: outer)).length + 3 ≤ Slots.capacity)
    (hlimit : 2 ≤ host.room) (hnul : file.contains 0 = false) (hid : host.sought file = .ok id) :
    ∃ i s j w₁ w₂, (Run.openFile k file Command.forReading 0).exec w = (.ok host.freeNumber, w₁) ∧
      (Run.duplicateHandle k host.freeNumber).exec w₁ = (.ok ⟨s, host.copyNumber id⟩, w₂) ∧
      w₂.At k ⟨(p, x) :: outer, .scope s (.record j (some (.close (host.copyNumber id))) .nil)
        (.record i (some (.close host.freeNumber)) .nil), some ⟨b, .message, 1⟩, program,
        host.duplicating id, ran⟩ := by
  obtain ⟨i, w₁, hopen, h₁⟩ := h.openFile (by
    rw [Forest.indices, List.nil_append]; omega) hnul hid
  obtain ⟨s, j, w₂, hduplicate, h₂⟩ := h₁.duplicateHandle (by
    simp only [Forest.indices, List.cons_append, List.nil_append, List.length_cons]; omega)
    (host.refers_installed (Host.freshFile id))
    (Host.not_exhausted_installed hlimit (Host.freshFile id))
  exact ⟨i, s, j, w₁, w₂, hopen, hduplicate, h₂⟩

/-- A file that can be read is read through the duplicate, which is closed then. -/
theorem readDuplicate (h : w.At k ⟨(p, x) :: outer, .nil, some ⟨b, .message, 1⟩, program, host, ran⟩)
    (hroom : (Forest.around ((p, x) :: outer)).length + 3 ≤ Slots.capacity)
    (hlimit : 2 ≤ host.room) (hnul : file.contains 0 = false) (hid : host.sought file = .ok id)
    (hnode : host.files.node? id = some node) (hends : node.Ends)
    (hcontent : node.content? = some content) :
    ∃ i n rest host' ran' w', (Command.readDuplicate k file).exec w =
        (.ok (host.freeNumber, host.copyNumber id, content), w') ∧
      w'.At k ⟨(p, x) :: outer, .record i (some (.close host.freeNumber)) .nil,
        some ⟨b, .message, 1⟩, program, host', ran'⟩ ∧
      host.Owes host' [⟨i, .close host.freeNumber⟩] ∧ host'.output = host.output ∧
      host'.Refers host.freeNumber n rest := by
  obtain ⟨i, s, j, w₁, w₂, hopen, hduplicate, h₂⟩ := h.openDuplicate hroom hlimit hnul hid
  have howes := host.owes_duplicating id i j
  have hnode' : (host.duplicating id).files.node? id = some node := by rw [howes.lends.files, hnode]
  obtain ⟨rest, w₃, hread, h₃⟩ :=
    h₂.readToEnd (by omega) (host.refers_copyNumber id) hnode' hends hcontent
  have howes₃ := howes.set (Nat.le_refl _) rest
  have hcloses := Host.Closes.close ((host.refers_copyNumber id).set rest).isOpen (.nil _)
  obtain ⟨w₄, hdestroy, h₄⟩ := h₃.destroyHandle hcloses (host.copyNumber id)
  refine ⟨i, host.openFiles.size, rest, _, _, w₄, ?_, h₄, howes₃.closed,
    host.output_duplicating id, ?_⟩
  · rw [Command.readDuplicate, exec_bind_ok hopen, exec_bind_ok hduplicate]
    dsimp only
    rw [exec_bind_ok hread, exec_bind_ok hdestroy]
    rfl
  · exact ((host.refers_duplicating id).set rest).closed (host.freeNumber_ne_copyNumber id)
      ((host.refers_copyNumber id).set rest).isOpen

/-- A file that cannot be read is a failure while both descriptors are open. -/
theorem readDuplicate_refused
    (h : w.At k ⟨(p, x) :: outer, .nil, some ⟨b, .message, 1⟩, program, host, ran⟩)
    (hroom : (Forest.around ((p, x) :: outer)).length + 3 ≤ Slots.capacity)
    (hlimit : 2 ≤ host.room) (hnul : file.contains 0 = false) (hid : host.sought file = .ok id)
    (hnode : host.files.node? id = some node) (hends : node.Ends) (hcontent : node.content? = none) :
    ∃ inner w', (Command.readDuplicate k file).exec w =
        (.error (.failure ⟨Errno.isDirectory,
          some ("read(" ++ toString (host.copyNumber id : Int) ++ ")" ++
            (": " ++ (IoError.os Errno.isDirectory).message)), some program, 1⟩), w') ∧
      w'.At k ⟨(p, x) :: outer, inner, some ⟨b, .message, 1⟩, program, host.duplicating id, ran⟩ ∧
      host.Owes (host.duplicating id) inner.due := by
  obtain ⟨i, s, j, w₁, w₂, hopen, hduplicate, h₂⟩ := h.openDuplicate hroom hlimit hnul hid
  have howes := host.owes_duplicating id i j
  have hnode' : (host.duplicating id).files.node? id = some node := by rw [howes.lends.files, hnode]
  obtain ⟨w', hread, h'⟩ :=
    h₂.readToEnd_refused (by omega) (host.refers_copyNumber id) hnode' hends hcontent
  refine ⟨_, w', ?_, h', howes⟩
  rw [Command.readDuplicate, exec_bind_ok hopen, exec_bind_ok hduplicate]
  exact exec_bind_error hread

end World.At

/-! ## The command -/

namespace Invocation

variable {inv : Invocation} {config : Config} {filter : LogFilter} {file : Bytes} {fault : String}

theorem endsWith_of_refusal_duplicate
    (hargs : Request.ofArguments? inv.arguments = some (.command (.dup file)))
    (hset : inv.settings = .ok (config, filter)) (hfault : inv.host.refusal? file = some fault) :
    inv.EndsWith (some (Run.openingText file ++ (": " ++ fault))) inv.host.output := by
  refine endsWith_of_body hargs hset fun b w h => ?_
  obtain ⟨i, code, w', hopen, h'⟩ := h.openFile_refused (by show 2 < Slots.capacity; decide) hfault
  refine ⟨_, [], _, _, _, _, w', ?_, .failed code _, h', .nothing inv.host, rfl⟩
  exact Run.exec_bind_error hopen

/-- A file that can be opened is copied through the duplicate, as if it were read from that
    alone. -/
theorem endsWith_duplicate
    (hargs : Request.ofArguments? inv.arguments = some (.command (.dup file)))
    (hset : inv.settings = .ok (config, filter)) (ho : inv.host.HasOutput)
    (hopens : inv.host.refusal? file = none) (hlimit : 2 ≤ inv.host.room)
    (hends : inv.host.Ends file) :
    ∃ fd : Int, inv.EndsWith (inv.host.output.pour [(fd, inv.host.content? file)]).2
      (inv.host.output.pour [(fd, inv.host.content? file)]).1 := by
  obtain ⟨hnul, id, hid⟩ := Host.exists_sought hopens
  obtain ⟨-, hpath, hfound⟩ := Host.sought_cases hid
  obtain ⟨node, hnode, hend, hsame⟩ := Host.exists_node_of_sought hpath hfound hends
  refine ⟨inv.host.copyNumber id, endsWith_of_body hargs hset fun b w h => ?_⟩
  have hroom : (Forest.around (inv.scene b).levels).length + 3 ≤ Slots.capacity := by
    show 2 + 3 ≤ Slots.capacity
    decide
  rw [← hsame]
  show ∃ r nearer inner frame host ran w', (Command.copyThroughDuplicate 0 file).exec w = (r, w') ∧ _
  rw [Command.copyThroughDuplicate_eq]
  rcases hcontent : node.content? with _ | content
  · obtain ⟨inner, w', hread, h', howes⟩ := h.readDuplicate_refused hroom hlimit hnul hid hnode hend hcontent
    exact ⟨_, [], inner, _, _, _, w', Run.exec_bind_error hread, .failed _ _, h', howes,
      inv.host.output_duplicating id⟩
  · obtain ⟨i, n, rest, host, ran, w₁, hread, h₁, howes, houtput, hr⟩ :=
      h.readDuplicate hroom hlimit hnul hid hnode hend hcontent
    have hmode := h₁.blockingMode hr
    rw [Sink.pour]
    rw [Run.exec_bind_ok hread]
    dsimp only
    rw [Run.exec_bind_ok hmode]
    rcases htakes : inv.host.output.takes content with e | sink
    · obtain ⟨w', hwrite, h'⟩ := h₁.writeAll_refused (ho.lends howes.lends) (houtput ▸ htakes)
      exact ⟨_, [], _, _, host, ran, w', hwrite, .failed _ _, h', howes, houtput⟩
    · obtain ⟨w', hwrite, h'⟩ := h₁.writeAll (ho.lends howes.lends) (houtput ▸ htakes)
      exact ⟨_, [], _, _, _, ran, w', hwrite, .returned, h', howes.output sink, rfl⟩

/-- The same invocation with other arguments: the name of a command, and its operands. -/
def asking (inv : Invocation) (name : String) (operands : List Bytes) : Invocation :=
  { inv with arguments := Utf8.encode name :: operands }

/-- An invocation whose configuration cannot be used ends before its command begins. -/
theorem run_of_settings_error {command : Command} {e : SetupError}
    (hargs : Request.ofArguments? inv.arguments = some (.command command))
    (hset : inv.settings = .error e) :
    inv.run = fail inv.host (inv.programName ++ ": " ++ e.message) := by
  unfold run
  rw [hargs]
  dsimp only
  rw [hset]

end Invocation

/-- A file that may be an operand alone to copy may be one to read through a duplicate. -/
theorem Request.ofArguments?_dup {operands : List Bytes} {file : Bytes}
    (h : ofArguments? (Utf8.encode "cat" :: operands) = some (.command (.cat [file]))) :
    ofArguments? (Utf8.encode "dup" :: operands) = some (.command (.dup file)) := by
  have hcat : asksVersion (Utf8.encode "cat") = false := by decide +kernel
  have hdup : asksVersion (Utf8.encode "dup") = false := by decide +kernel
  rw [ofArguments?, if_neg (by rw [hcat]; decide), Utf8.decode?_encode] at h
  rw [ofArguments?, if_neg (by rw [hdup]; decide), Utf8.decode?_encode]
  simp only [Option.bind_eq_bind, Option.bind_some, Option.pure_def] at h ⊢
  rcases hoperands : operands? operands with _ | _ | ⟨first, _ | ⟨second, more⟩⟩ <;>
    rw [hoperands] at h
  · cases h
  · cases h
  · simp only [Option.bind_some, command?, List.mapM_cons, List.mapM_nil] at h ⊢
    rcases hfile : file? first with _ | found <;> rw [hfile] at h <;> cases h
    rfl
  · simp [command?, List.mapM_cons, Option.bind_eq_some_iff] at h

/-! ## Agreement -/

namespace Invocation

variable {inv : Invocation} {operands : List Bytes} {file : Bytes} {fault : Option String}
  {output : Sink} {w : World}

/-- Up to the number of a descriptor that could not be read, standard error ends with the
    same words. -/
def SameWords (inv inv' : Invocation) : Prop :=
  inv.run.host.error = inv'.run.host.error ∨
    ∃ (m n : Int) (fault : String),
      inv.run.host.error = inv.lastWords (some ("read(" ++ toString m ++ ")" ++ fault)) ∧
        inv'.run.host.error = inv'.lastWords (some ("read(" ++ toString n ++ ")" ++ fault))

/-- The same exit status, the same output, and the same words. -/
structure Agrees (inv inv' : Invocation) : Prop where
  status : inv.run.status = inv'.run.status
  output : inv.run.host.output = inv'.run.host.output
  words : inv.SameWords inv'

theorem agrees_of_endsWith {name name' : String}
    (h : (inv.asking name operands).EndsWith fault output)
    (h' : (inv.asking name' operands).EndsWith fault output) :
    (inv.asking name operands).Agrees (inv.asking name' operands) :=
  ⟨h.status.trans h'.status.symm, h.output.trans h'.output.symm, .inl (h.error.trans h'.error.symm)⟩

/-- Reading through a duplicate ends as copying the one file does. -/
theorem agrees_dup
    (hfile : Request.ofArguments? (Utf8.encode "cat" :: operands) = some (.command (.cat [file])))
    (ho : inv.host.HasOutput) (hends : inv.host.Ends file)
    (hlimit : inv.host.refusal? file = none → 2 ≤ inv.host.room) :
    (inv.asking "dup" operands).Agrees (inv.asking "cat" operands) := by
  have hdup : Request.ofArguments? (inv.asking "dup" operands).arguments =
      some (.command (.dup file)) :=
    Request.ofArguments?_dup hfile
  have hcat : Request.ofArguments? (inv.asking "cat" operands).arguments =
    some (.command (.cat ([] ++ file :: []))) := hfile
  rcases hset : inv.settings with e | ⟨config, filter⟩
  · have hrun := run_of_settings_error hdup hset
    have hrun' := run_of_settings_error hcat hset
    have hsame : (inv.asking "dup" operands).run = (inv.asking "cat" operands).run := by
      rw [hrun, hrun']
      rfl
    exact ⟨by rw [hsame], by rw [hsame], .inl (by rw [hsame])⟩
  · rcases hopens : inv.host.refusal? file with _ | fault
    · obtain ⟨m, hm⟩ : ∃ m : Int, (inv.asking "dup" operands).EndsWith
          (inv.host.output.pour [(m, inv.host.content? file)]).2
          (inv.host.output.pour [(m, inv.host.content? file)]).1 :=
        endsWith_duplicate hdup hset ho hopens (hlimit hopens) hends
      obtain ⟨fds, hlength, hn⟩ := endsWith_pour hcat hset ho (.next hopens (.nothing _))
        (List.forall_mem_singleton.2 hends)
      obtain ⟨n, rfl⟩ := List.length_eq_one_iff.1 hlength
      have hn : (inv.asking "cat" operands).EndsWith
          (inv.host.output.pour [(n, inv.host.content? file)]).2
          (inv.host.output.pour [(n, inv.host.content? file)]).1 := hn
      -- only a failure to read tells which descriptor it was
      rcases hcontent : inv.host.content? file with _ | content <;> rw [hcontent] at hm hn
      · exact ⟨hm.status.trans hn.status.symm, hm.output.trans hn.output.symm,
          .inr ⟨m, n, _, hm.error, hn.error⟩⟩
      · exact agrees_of_endsWith hm hn
    · exact agrees_of_endsWith (endsWith_of_refusal_duplicate hdup hset hopens)
        (endsWith_of_refusal hcat hset (.nothing _) hopens)

/-- When the duplicate has been closed, the descriptor that it was made from is open, and
    its mode can be told. -/
theorem InCall.isOpen_of_readDuplicate (h : inv.InCall w) (hends : inv.host.Ends file)
    (hlimit : inv.host.refusal? file = none → 2 ≤ inv.host.room) {fd copy : Nat} {bytes : Bytes} {w' : World}
    (hread : (Command.readDuplicate 0 file).exec w = (.ok (fd, copy, bytes), w')) :
    w'.host.isOpen fd = true ∧ w'.host.isOpen copy = false ∧
      ∃ mode, (Run.blockingMode 0 fd).exec w' = (.ok mode, w') := by
  obtain ⟨b, hat⟩ := h.at
  have hroom : (Forest.around (inv.scene b).levels).length + 3 ≤ Slots.capacity := by
    show 2 + 3 ≤ Slots.capacity
    decide
  rcases hopens : inv.host.refusal? file with _ | fault
  · obtain ⟨hnul, id, hid⟩ := Host.exists_sought hopens
    obtain ⟨-, hpath, hfound⟩ := Host.sought_cases hid
    obtain ⟨node, hnode, hend, -⟩ := Host.exists_node_of_sought hpath hfound hends
    rcases hcontent : node.content? with _ | content
    · obtain ⟨inner, w₁, hrefused, -⟩ :=
        hat.readDuplicate_refused hroom (hlimit hopens) hnul hid hnode hend hcontent
      cases hread.symm.trans hrefused
    · obtain ⟨i, n, rest, host, ran, w₁, hexec, h₁, howes, -, hr⟩ :=
        hat.readDuplicate hroom (hlimit hopens) hnul hid hnode hend hcontent
      cases hread.symm.trans hexec
      have hcopy : (inv.host.copyNumber id : Int) ∉ [(inv.host.freeNumber : Int)] := by
        rw [List.mem_singleton]
        exact (inv.host.freeNumber_ne_copyNumber id).symm
      have hfree := (inv.host.owes_duplicating id i i).lends.free _ (List.mem_cons_self ..)
      rw [h₁.host]
      refine ⟨hr.isOpen, ?_, _, h₁.blockingMode hr⟩
      rw [Host.isOpen, howes.lends.other _ hcopy, hfree]
      rfl
  · obtain ⟨i, code, w₁, hrefused, -⟩ :=
      hat.openFile_refused (by show 2 < Slots.capacity; decide) hopens
    rw [Command.readDuplicate, Run.exec_bind_error hrefused] at hread
    cases hread

end Invocation

/-- Reading a file through a duplicate of its descriptor and copying the file end alike,
    whatever the file is and whatever becomes of what is written: with the same exit status,
    the same output, and the same words but for the number of a descriptor that could not be
    read.  The end of the duplicate does not close the descriptor it was made from, so asking
    for the mode of that does not fail.

    A file that can be opened needs a second descriptor for the duplicate. -/
theorem dup_agrees_with_cat {inv : Invocation} {operands : List Bytes} {file : Bytes}
    (hfile : Request.ofArguments? (Utf8.encode "cat" :: operands) = some (.command (.cat [file])))
    (ho : inv.host.HasOutput) (hends : inv.host.Ends file)
    (hlimit : inv.host.refusal? file = none → 2 ≤ inv.host.room) :
    Request.ofArguments? (Utf8.encode "dup" :: operands) = some (.command (.dup file)) ∧
      (inv.asking "dup" operands).Agrees (inv.asking "cat" operands) ∧
      ∀ w, inv.InCall w → ∀ (fd copy : Nat) bytes w',
        (Command.readDuplicate 0 file).exec w = (.ok (fd, copy, bytes), w') →
          w'.host.isOpen fd = true ∧ w'.host.isOpen copy = false ∧
            ∃ mode, (Run.blockingMode 0 fd).exec w' = (.ok mode, w') :=
  ⟨Request.ofArguments?_dup hfile, Invocation.agrees_dup hfile ho hends hlimit,
    fun _ h _ _ _ _ hread => h.isOpen_of_readDuplicate hends hlimit hread⟩

/-- An invocation in a directory with a file `f` and a directory `d`, whose output is full. -/
def crammed : Invocation :=
  { copying [] with host := { (copying []).host with output := ⟨.full, []⟩ } }

/-- The theorem above for a directory, and for a file that cannot be written. -/
theorem dup_agrees_with_cat_crammed :
    (crammed.asking "dup" [Path.ofText "d"]).Agrees (crammed.asking "cat" [Path.ofText "d"]) ∧
      (crammed.asking "dup" [Path.ofText "f"]).Agrees (crammed.asking "cat" [Path.ofText "f"]) ∧
      ∃ w w' fd copy, crammed.InCall w ∧
        (Command.readDuplicate 0 (Path.ofText "f")).exec w = (.ok (fd, copy, Utf8.encode "hi"), w') ∧
          w'.host.isOpen fd = true := by
  have ho : crammed.host.HasOutput :=
    ⟨1, ⟨.stream .output, StatusWord.ofAccess .writeOnly, 0, false⟩, ⟨rfl, rfl⟩, by decide, rfl⟩
  have hfile : crammed.host.Ends (Path.ofText "f") :=
    Host.ends_of_find 6 (.file 0o644 (Utf8.encode "hi")) rfl rfl
      (by show 2 ≤ Run.unlimited; decide)
  have hdirectory : crammed.host.Ends (Path.ofText "d") :=
    Host.ends_of_find 7 (.directory 0 []) rfl rfl trivial
  have hargs : Request.ofArguments? [Utf8.encode "cat", Path.ofText "d"] =
    some (.command (.cat [Path.ofText "d"])) := by decide +kernel
  have hargs' : Request.ofArguments? [Utf8.encode "cat", Path.ofText "f"] =
    some (.command (.cat [Path.ofText "f"])) := by decide +kernel
  have hroom : 2 ≤ crammed.host.room := by
    have hleft := crammed.host.limit_le_room_add
    have hsize : crammed.host.descriptors.size = 3 := rfl
    have hlimit : (crammed.host.limit : ℕ) = 1024 := by decide
    omega
  obtain ⟨-, hagrees, -⟩ := dup_agrees_with_cat hargs ho hdirectory fun _ => hroom
  obtain ⟨-, hagrees', hopen⟩ := dup_agrees_with_cat hargs' ho hfile fun _ => hroom
  obtain ⟨w, hw⟩ := crammed.exists_inCall
  obtain ⟨b, hat⟩ := hw.at
  have hid : crammed.host.sought (Path.ofText "f") = .ok 6 := by decide +kernel
  have hnode : crammed.host.files.node? 6 = some (.file 0o644 (Utf8.encode "hi")) := rfl
  obtain ⟨i, n, rest, host, ran, w', hread, -⟩ :=
    hat.readDuplicate (by show 2 + 3 ≤ Slots.capacity; decide) hroom (by decide) hid hnode
      (by show 2 ≤ Run.unlimited; decide) rfl
  exact ⟨hagrees, hagrees', w, w', _, _, hw, hread, (hopen w hw _ _ _ w' hread).1⟩

end ScopedResources
