/-
  Sending a message through a pipe.

  Both ends of the pipe belong to the one who sends, so a message is sent only if an empty
  pipe takes it whole.  Then neither the write nor the read has to wait, and what comes out is
  what went in.

  * `Pipe.write_empty`, `Pipe.read_page`: a pipe that is empty takes a page, and gives it back.
  * `Host.refers_readEnd`, `Host.refers_writeEnd`: the ends of a pipe; `At.openPipe`.
  * `Command.openMessage` is the part of the command before it writes; `At.openMessage` and
    `At.openMessage_refused` are what it does.
  * `pipe_echoes`: how the command ends, and that all it held has been released by then.
-/
import ScopedResources.Proofs.Copying

namespace ScopedResources

/-! ## Pipes -/

namespace Pipe

/-- An empty pipe takes up to a page at once. -/
theorem write_empty {bytes : Bytes} (hne : bytes ≠ []) (hfits : bytes.length ≤ pageSize) :
    empty.write bytes = (bytes.length, ⟨[⟨0, bytes⟩]⟩) := by
  have hfill : fillLast empty.pages bytes = ([], bytes) := rfl
  have hrest : newPages 15 (bytes.drop pageSize) = ([], []) := by
    rw [List.drop_of_length_le hfits]
    rfl
  rw [write, hfill]
  show (bytes.length - (newPages (15 + 1) bytes).2.length,
    (⟨[] ++ (newPages (15 + 1) bytes).1⟩ : Pipe)) = _
  rw [newPages, if_neg hne, hrest, List.take_of_length_le hfits]
  rfl

/-- A page that is asked for whole is read whole. -/
theorem read_page {bytes : Bytes} (hne : bytes ≠ []) :
    (⟨[⟨0, bytes⟩]⟩ : Pipe).read bytes.length = (bytes, .empty) := by
  obtain ⟨n, hn⟩ := Nat.exists_eq_succ_of_ne_zero (mt List.length_eq_zero_iff.1 hne)
  have hall : takePages bytes.length [⟨0, bytes⟩] = (bytes, []) := by
    rw [hn, takePages, if_pos (Nat.le_of_eq hn)]
    · simp [takePages]
    · simp
  rw [read, hall]
  rfl

end Pipe

namespace Host

variable {h base host : Host} {fd : Int} {n pipe : Nat} {file : OpenFile} {p p' : Pipe} {bytes : Bytes}

/-- What a descriptor refers to is a target. -/
theorem isTargeted_of_refers (hr : h.Refers fd n file) : h.isTargeted file.target = true := by
  obtain ⟨d, hd, rfl⟩ := Option.map_eq_some_iff.1 hr.number
  have h0 := nonneg_of_isOpen hr.isOpen
  rw [descriptor?, if_pos h0, Option.join_eq_some_iff] at hd
  obtain ⟨hlt, hget⟩ := Array.getElem?_eq_some_iff.1 hd
  rw [isTargeted, Array.any_eq_true]
  refine ⟨fd.toNat, hlt, ?_⟩
  rw [hget]
  dsimp only
  rw [hr.file]
  simp

/-- A write that a pipe takes in part at least. -/
theorem exec_write_pipe {count : Nat} (hr : h.Refers fd n file)
    (hmay : file.status.access.mayWrite = true) (htarget : file.target = .writeEnd pipe)
    (hpipe : h.pipes[pipe]? = some p) (hheard : h.isTargeted (.readEnd pipe) = true)
    (hwrite : p.write bytes = (count, p')) (hcount : count ≠ 0) :
    (write fd bytes).exec h = (.ok count, { h with pipes := h.pipes.setIfInBounds pipe p' }) := by
  rw [write, exec_bind, exec_opened_of_refers hr]
  dsimp only
  rw [if_neg (by rw [hmay]; decide), exec_get_bind, htarget]
  dsimp only
  rw [hpipe]
  dsimp only
  rw [if_neg (by rw [hheard]; decide), hwrite]
  dsimp only
  rw [if_neg (fun hnot => hcount hnot.1)]
  rfl

/-- A read from a pipe with something in it. -/
theorem exec_read_pipe {limit : Nat} (hr : h.Refers fd n file)
    (hmay : file.status.access.mayRead = true) (htarget : file.target = .readEnd pipe)
    (hpipe : h.pipes[pipe]? = some p) (hread : p.read limit = (bytes, p')) (hne : bytes ≠ []) :
    (read fd limit).exec h = (.ok bytes, { h with pipes := h.pipes.setIfInBounds pipe p' }) := by
  rw [read, exec_bind, exec_opened_of_refers hr]
  dsimp only
  rw [if_neg (by rw [hmay]; decide), exec_get_bind, htarget]
  dsimp only
  rw [hpipe]
  dsimp only
  rw [hread]
  show Call.exec (if bytes = [] ∧ _ then _ else _)
    { h with pipes := h.pipes.setIfInBounds pipe p' } = _
  rw [if_neg (fun hnot => hne hnot.1)]
  rfl

/-! ## Opening a pipe -/

theorem refers_readEnd (h : Host) :
    h.piping.Refers h.freeNumber h.openFiles.size (readEndFile h.pipes.size) :=
  (refers_installed { h with pipes := h.pipes.push .empty } (readEndFile h.pipes.size)).installed _

theorem refers_writeEnd (h : Host) :
    h.piping.Refers h.writeEnd h.halfPiping.openFiles.size (writeEndFile h.pipes.size) :=
  h.halfPiping.refers_installed _

theorem pipes_piping (h : Host) : h.piping.pipes = h.pipes.push .empty := by
  rw [piping, installed_eq, halfPiping, installed_eq]

theorem output_piping (h : Host) : h.piping.output = h.output := by
  rw [piping, installed_eq, halfPiping, installed_eq]

theorem Owes.piping {due : List (Due Release)} (howes : base.Owes host due) (i j : Index) :
    base.Owes host.piping (⟨j, .close host.writeEnd⟩ :: ⟨i, .close host.freeNumber⟩ :: due) :=
  ((howes.pipes (host.pipes.push .empty)).installed i _).installed j _

theorem lends_piping (h : Host) : h.Lends h.piping [(h.writeEnd : Int), h.freeNumber] :=
  ((h.lends_nothing.pipes (h.pipes.push .empty)).installed _).installed _

/-- The ends of a pipe get two numbers that were free. -/
theorem free_pipeEnds (h : Host) : h.isOpen h.freeNumber = false ∧ h.isOpen h.writeEnd = false ∧
    (h.freeNumber : Int) ≠ h.writeEnd := by
  have hends := h.lends_piping
  have hfree : ∀ fd ∈ [(h.writeEnd : Int), h.freeNumber], h.isOpen fd = false := fun fd hmem => by
    rw [isOpen, hends.free fd hmem]
    rfl
  refine ⟨hfree _ (by simp), hfree _ (by simp), fun heq => ?_⟩
  exact (List.nodup_cons.1 hends.nodup).1 (by rw [← heq]; exact List.mem_singleton_self _)

end Host

namespace World.At

open Run

variable {w : World} {k : ContextId} {levels : List (Index × Forest Release)} {inner : Forest Release}
  {b i : Index} {frame : Option Frame} {program : String} {host : Host} {ran : List (Due Release)}
  {text : String}

/-- Where there is room, a text is formatted. -/
theorem format (h : w.At k ⟨levels, inner, frame, program, host, ran⟩)
    (hroom : (inner.indices ++ Forest.around levels).length < Slots.capacity) (text : String) :
    ∃ i w', (Run.format k (.rendered text false)).exec w = (.ok i, w') ∧
      w'.At k ⟨levels, .record i (some (.forget (.text text))) inner, frame, program, host, ran⟩ := by
  obtain ⟨i, w₁, hreserve, h₁⟩ := h.reserve hroom
  obtain ⟨w₂, hcommit, h₂⟩ := h₁.commit_newest (.forget (.text text))
  refine ⟨i, w₂, ?_, h₂⟩
  rw [Run.format, exec_bind_ok hreserve]
  show (Run.commit k i (.forget (.text text)) >>= fun _ => pure i).exec w₁ = _
  rw [exec_bind_ok hcommit]
  rfl

/-- The text that was formatted last can be looked at. -/
theorem text?
    (h : w.At k ⟨levels, .record i (some (.forget (.text text))) inner, frame, program, host, ran⟩) :
    (Run.view k (·.text? i)).exec w = (.ok (some text), w) :=
  h.view fun t ht => by
    have hrelease := ht.release? (List.mem_cons_self ..)
    rw [Context.text?, Context.payload?, hrelease]

/-- Where there is room, a pipe is opened. -/
theorem openPipe (h : w.At k ⟨levels, inner, frame, program, host, ran⟩)
    (hroom : (inner.indices ++ Forest.around levels).length + 1 < Slots.capacity)
    (hlimit : 2 ≤ host.room) :
    ∃ i j w', (Run.openPipe k).exec w = (.ok (host.freeNumber, host.writeEnd), w') ∧
      w'.At k ⟨levels, .record j (some (.close host.writeEnd))
        (.record i (some (.close host.freeNumber)) inner), frame, program, host.piping, ran⟩ := by
  obtain ⟨i, w₁, hread, h₁⟩ := h.reserve (Nat.lt_of_succ_lt hroom)
  obtain ⟨j, w₂, hwrite, h₂⟩ := h₁.reserve (by
    simp only [Forest.indices, List.length_append, List.length_cons] at hroom ⊢; omega)
  obtain ⟨w₃, hpipe, h₃⟩ := h₂.onHost (Host.exec_openPipe_of_room hlimit)
  obtain ⟨hj, hi⟩ := Forest.nodup_record.1 h₃.nodup
  have hne : j ≠ i := fun heq => hj (heq ▸ List.mem_cons_self ..)
  have hmem : i ∈ (Forest.record j none (.record i none inner)).records :=
    List.mem_cons_of_mem _ (List.mem_cons_self ..)
  obtain ⟨w₄, hcommit, h₄⟩ := h₃.commit hmem (.close host.freeNumber)
  rw [Forest.attach, if_neg hne, Forest.attach, if_pos rfl,
    Forest.attach_of_notMem (Forest.nodup_record.1 hi).1] at h₄
  obtain ⟨w₅, hcommit', h₅⟩ := h₄.commit_newest (.close host.writeEnd)
  refine ⟨i, j, w₅, ?_, h₅⟩
  rw [Run.openPipe, exec_bind_ok hread, exec_bind_ok hwrite, exec_bind_ok hpipe,
    exec_bind_ok (exec_granted_ok k _ _ w₃)]
  show (commitClose k i host.freeNumber >>= fun _ => commitClose k j host.writeEnd >>= fun _ =>
    pure (host.freeNumber, host.writeEnd)).exec w₃ = _
  rw [commitClose, exec_bind_ok hcommit, commitClose, exec_bind_ok hcommit']
  rfl

end World.At

/-! ## The command -/

namespace Command

/-- Formats a line, and opens a pipe for it if it fits; gives the line, the reading end and the
    writing end. -/
def openMessage (k : ContextId) (message : String) : Run (Bytes × Nat × Nat) := do
  let line ← Run.format k (.rendered (message ++ "\n") false)
  let bytes := Utf8.encode ((← Run.view k (·.text? line)).getD "")
  if messageLimit < bytes.length then
    Run.throwing (Run.fail k Errno.messageTooLong
      (.rendered ("message longer than " ++ toString messageLimit ++ " bytes") false))
  let (readEnd, writeEnd) ← Run.openPipe k
  return (bytes, readEnd, writeEnd)

/-- Sends a line through a pipe, and writes what comes out. -/
def passMessage (k : ContextId) (bytes : Bytes) (readEnd writeEnd : Nat) : Run Unit := do
  Run.writeAll k writeEnd bytes
  Run.writeAll k standardOutput (← Run.readExact k readEnd bytes.length)

theorem sendMessage_eq (k : ContextId) (message : String) : sendMessage k message =
    Run.withScope k (openMessage k message >>= fun (bytes, readEnd, writeEnd) =>
      passMessage k bytes readEnd writeEnd) := by
  have hbranch : ∀ {α β : Type} (p : Prop) [Decidable p] (x y : Run α) (f : α → Run β),
      ((if p then x else y) >>= f) = if p then x >>= f else y >>= f := fun p _ x y f => by
    split <;> rfl
  simp only [sendMessage, openMessage, passMessage, bind_assoc, pure_bind, hbranch]

end Command

/-- A line is its message and one more byte. -/
theorem Utf8.encode_line (message : String) : encode (message ++ "\n") = encode message ++ [0x0A] := by
  simp [encode, encodeChar]

namespace World.At

open Run

variable {w : World} {k : ContextId} {levels outer : List (Index × Forest Release)}
  {inner older x : Forest Release} {b p s : Index} {frame : Option Frame} {program : String}
  {base host : Host} {ran : List (Due Release)} {message : String}

/-- A line that fits is formatted, and a pipe opened. -/
theorem openMessage (h : w.At k ⟨levels, .nil, frame, program, host, ran⟩)
    (hroom : (Forest.around levels).length + 3 ≤ Slots.capacity) (hlimit : 2 ≤ host.room)
    (hfits : (Utf8.encode (message ++ "\n")).length ≤ Command.messageLimit) :
    ∃ t i j w', (Command.openMessage k message).exec w =
        (.ok (Utf8.encode (message ++ "\n"), host.freeNumber, host.writeEnd), w') ∧
      w'.At k ⟨levels, .record j (some (.close host.writeEnd))
        (.record i (some (.close host.freeNumber))
          (.record t (some (.forget (.text (message ++ "\n")))) .nil)),
        frame, program, host.piping, ran⟩ := by
  obtain ⟨t, w₁, hformat, h₁⟩ :=
    h.format (by rw [Forest.indices, List.nil_append]; omega) (message ++ "\n")
  obtain ⟨i, j, w₂, hpipe, h₂⟩ := h₁.openPipe (by
    simp only [Forest.indices, List.cons_append, List.nil_append, List.length_cons]; omega) hlimit
  refine ⟨t, i, j, w₂, ?_, h₂⟩
  rw [Command.openMessage, exec_bind_ok hformat, exec_bind_ok h₁.text?, Option.getD_some,
    if_neg (Nat.not_lt.2 hfits), exec_bind_ok hpipe]
  rfl

/-- A line that does not fit is a failure before there is a pipe. -/
theorem openMessage_refused
    (h : w.At k ⟨levels, .nil, some ⟨b, .message, 1⟩, program, host, ran⟩)
    (hroom : (Forest.around levels).length < Slots.capacity)
    (hlong : Command.messageLimit < (Utf8.encode (message ++ "\n")).length) :
    ∃ t w', (Command.openMessage k message).exec w = (.error (.failure ⟨Errno.messageTooLong,
        some "message longer than 4096 bytes", some program, 1⟩), w') ∧
      w'.At k ⟨levels, .record t (some (.forget (.text (message ++ "\n")))) .nil,
        some ⟨b, .message, 1⟩, program, host, ran⟩ := by
  obtain ⟨t, w₁, hformat, h₁⟩ := h.format hroom (message ++ "\n")
  obtain ⟨w₂, hthrow, h₂⟩ := h₁.throwing (α := PUnit) Errno.messageTooLong
    (.rendered ("message longer than " ++ toString Command.messageLimit ++ " bytes") false)
  refine ⟨t, w₂, ?_, h₂⟩
  rw [Command.openMessage, exec_bind_ok hformat, exec_bind_ok h₁.text?, Option.getD_some,
    if_pos hlong]
  exact exec_bind_error hthrow

end World.At

namespace Host

variable {h : Host} {bytes : Bytes}

/-- The host that a line leaves in the pipe that was opened for it. -/
def sent (h : Host) (bytes : Bytes) : Host :=
  { h.piping with pipes := h.piping.pipes.setIfInBounds h.pipes.size ⟨[⟨0, bytes⟩]⟩ }

/-- The host after the line was read. -/
def received (h : Host) (bytes : Bytes) : Host :=
  { h.sent bytes with pipes := (h.sent bytes).pipes.setIfInBounds h.pipes.size .empty }

/-- An empty pipe takes a line that fits at once. -/
theorem exec_write_line (hne : bytes ≠ []) (hfits : bytes.length ≤ Pipe.pageSize) :
    (write h.writeEnd bytes).exec h.piping = (.ok bytes.length, h.sent bytes) := by
  have hpipe : h.piping.pipes[h.pipes.size]? = some .empty := by
    rw [pipes_piping, Array.getElem?_push_size]
  have hmay : (writeEndFile h.pipes.size).status.access.mayWrite = true := by
    show (StatusWord.ofAccess .writeOnly).access.mayWrite = true
    decide
  exact exec_write_pipe h.refers_writeEnd hmay rfl hpipe (isTargeted_of_refers h.refers_readEnd)
    (Pipe.write_empty hne hfits) (mt List.length_eq_zero_iff.1 hne)

/-- What comes out is what went in, at once. -/
theorem exec_read_line (hne : bytes ≠ []) :
    (read h.freeNumber bytes.length).exec (h.sent bytes) = (.ok bytes, h.received bytes) := by
  have hpipe : (h.sent bytes).pipes[h.pipes.size]? = some ⟨[⟨0, bytes⟩]⟩ := by
    rw [sent, Array.getElem?_setIfInBounds_self_of_lt (by rw [pipes_piping, Array.size_push]; omega)]
  have hr : (h.sent bytes).Refers h.freeNumber h.openFiles.size (readEndFile h.pipes.size) :=
    ⟨h.refers_readEnd.number, h.refers_readEnd.file⟩
  have hmay : (readEndFile h.pipes.size).status.access.mayRead = true := by
    show (StatusWord.ofAccess .readOnly).access.mayRead = true
    decide
  exact exec_read_pipe hr hmay rfl hpipe (Pipe.read_page hne) hne

end Host

namespace World.At

open Run

variable {w : World} {k : ContextId} {outer : List (Index × Forest Release)}
  {older x : Forest Release} {b p : Index} {frame : Option Frame} {program : String}
  {host : Host} {ran : List (Due Release)} {message : String} {sink : Sink}

/-- A message that fits is written to the output, and all that was needed is released. -/
theorem sendMessage (h : w.At k ⟨(p, x) :: outer, older, frame, program, host, ran⟩)
    (hroom : (older.indices ++ Forest.around ((p, x) :: outer)).length + 4 ≤ Slots.capacity)
    (hlimit : 2 ≤ host.room) (ho : host.HasOutput)
    (hfits : (Utf8.encode (message ++ "\n")).length ≤ Command.messageLimit)
    (htakes : host.output.takes (Utf8.encode (message ++ "\n")) = .ok sink) :
    ∃ t i j host' w', (Command.sendMessage k message).exec w = (.ok (), w') ∧
      w'.At k ⟨(p, x) :: outer, older, frame, program, host',
        [⟨t, .forget (.text (message ++ "\n"))⟩, ⟨i, .close host.freeNumber⟩, ⟨j, .close host.writeEnd⟩] ++
          ran⟩ ∧
      host.Lends host' [] ∧ host'.output = sink := by
  have hne : Utf8.encode (message ++ "\n") ≠ [] := by rw [Utf8.encode_line]; simp
  obtain ⟨s, w₁, hpush, h₁⟩ := h.pushScope (by omega)
  obtain ⟨t, i, j, w₂, hopen, h₂⟩ := h₁.openMessage
    (by simp only [Forest.around_cons, List.length_append, List.length_cons] at hroom ⊢; omega)
    hlimit hfits
  obtain ⟨w₃, hwrite, h₃⟩ := h₂.writeAll_of_write (by omega) hne (Host.exec_write_line hne hfits)
  obtain ⟨w₄, hread, h₄⟩ := h₃.readExact_of_read (by omega) hne (Host.exec_read_line hne)
  have howes : host.Owes (host.received (Utf8.encode (message ++ "\n"))) _ :=
    ((((Host.Owes.nothing host).forget t (.text (message ++ "\n"))).piping i j).pipes _).pipes _
  obtain ⟨w₅, houtput, h₅⟩ := h₄.writeAll (ho.lends howes.lends) (by
    show Sink.takes host.piping.output _ = _
    rw [Host.output_piping, htakes])
  obtain ⟨host', hcloses, hlends, hsame, -⟩ := (howes.output sink).closes
  obtain ⟨w₆, hleave, h₆⟩ := h₅.leaveScope hcloses
  refine ⟨t, i, j, host', w₆, ?_, h₆, hlends, hsame⟩
  rw [Command.sendMessage_eq]
  refine exec_withScope hpush ?_ hleave
  rw [exec_bind_ok hopen]
  dsimp only
  rw [Command.passMessage, exec_bind_ok hwrite, exec_bind_ok hread, houtput]

/-- A message that does not fit leaves its scope behind, with the text in it. -/
theorem sendMessage_refused
    (h : w.At k ⟨(p, x) :: outer, older, some ⟨b, .message, 1⟩, program, host, ran⟩)
    (hroom : (older.indices ++ Forest.around ((p, x) :: outer)).length + 2 ≤ Slots.capacity)
    (hlong : Command.messageLimit < (Utf8.encode (message ++ "\n")).length) :
    ∃ s t w', (Command.sendMessage k message).exec w = (.error (.failure ⟨Errno.messageTooLong,
        some "message longer than 4096 bytes", some program, 1⟩), w') ∧
      w'.At k ⟨(s, older) :: (p, x) :: outer,
        .record t (some (.forget (.text (message ++ "\n")))) .nil, some ⟨b, .message, 1⟩, program,
        host, ran⟩ := by
  obtain ⟨s, w₁, hpush, h₁⟩ := h.pushScope (by omega)
  obtain ⟨t, w₂, hopen, h₂⟩ := h₁.openMessage_refused
    (by simp only [Forest.around_cons, List.length_append, List.length_cons] at hroom ⊢; omega) hlong
  refine ⟨s, t, w₂, ?_, h₂⟩
  rw [Command.sendMessage_eq]
  exact exec_withScope_error hpush (exec_bind_error hopen)

end World.At

/-! ## Echoes -/

namespace Invocation

variable {inv : Invocation} {message : String} {config : Config} {filter : LogFilter} {w : World}

/-- Nothing is held any more: no record of the first context is alive, and the descriptors
    are those that the invocation began with.  These releases have run, in this order. -/
structure HasReleased (inv : Invocation) (w : World) (releases : List Release) : Prop where
  records : ∃ c, w.context? 0 = some c ∧ ∀ i, c.tree.record? i = none
  descriptors : ∀ fd, w.host.descriptor? fd = inv.host.descriptor? fd
  ran : (w.journal.ran.map (·.release)).reverse = releases

theorem hasReleased_of_at {levels : List (Index × Forest Release)} {inner : Forest Release}
    {frame : Option Frame} {program : String} {host : Host} {ran : List (Due Release)}
    (h : w.At 0 ⟨levels, inner, frame, program, host, ran⟩)
    (hrecords : (Forest.nest levels inner).records = []) (hlends : inv.host.Lends host []) :
    inv.HasReleased w (ran.map (·.release)).reverse where
  records := by
    obtain ⟨t, hc, ht⟩ := h.tree
    exact ⟨_, hc, ht.record?_eq_none hrecords⟩
  descriptors fd := by
    rw [h.host]
    exact hlends.other fd List.not_mem_nil
  ran := by rw [h.ran]

/-- In the command's call, the pipe takes the whole line at once when it is written, and
    gives it back at once when it is read. -/
def PassesAtOnce (inv : Invocation) (message : String) : Prop :=
  ∀ w, inv.InCall w → ∀ s w₁ bytes readEnd writeEnd w₂, (Run.pushScope 0).exec w = (.ok s, w₁) →
    (Command.openMessage 0 message).exec w₁ = (.ok (bytes, readEnd, writeEnd), w₂) →
      bytes = Utf8.encode (message ++ "\n") ∧
        ∃ h₁ h₂, (Host.write writeEnd bytes).exec w₂.host = (.ok bytes.length, h₁) ∧
          (Host.read readEnd bytes.length).exec h₁ = (.ok bytes, h₂)

theorem passesAtOnce (hlimit : 2 ≤ inv.host.room)
    (hfits : (Utf8.encode (message ++ "\n")).length ≤ Command.messageLimit) :
    inv.PassesAtOnce message := by
  intro w hw s w₁ bytes readEnd writeEnd w₂ hpush hopen
  have hne : Utf8.encode (message ++ "\n") ≠ [] := by rw [Utf8.encode_line]; simp
  obtain ⟨b, hat⟩ := hw.at
  obtain ⟨s', w₁', hpush', h₁⟩ := hat.pushScope (by show 2 < Slots.capacity; decide)
  cases hpush.symm.trans hpush'
  obtain ⟨t, i, j, w₂', hopen', h₂⟩ :=
    h₁.openMessage (by show 3 + 3 ≤ Slots.capacity; decide) hlimit hfits
  cases hopen.symm.trans hopen'
  refine ⟨rfl, inv.host.sent _, inv.host.received _, ?_, Host.exec_read_line hne⟩
  rw [h₂.host]
  exact Host.exec_write_line hne hfits

/-- A line that fits is the output of the command, which returns from its call. -/
theorem exists_protect_of_fits
    (hargs : Request.ofArguments? inv.arguments = some (.command (.pipe message)))
    (hset : inv.settings = .ok (config, filter)) (hprints : inv.host.Prints)
    (hlimit : 2 ≤ inv.host.room)
    (hfits : (Utf8.encode (message ++ "\n")).length ≤ Command.messageLimit) :
    ∃ w w' host, (Run.newContext inv.programName).exec (inv.world filter) = (.ok 0, w) ∧
      (Run.protect 0 .message (Command.execute 0 config (.pipe message))).exec w =
        (.ok (.ok ()), w') ∧
      inv.run = ⟨successStatus, host⟩ ∧
      host.output.content = inv.host.output.content ++ Utf8.encode (message ++ "\n") ∧
      inv.HasReleased w' [.close inv.host.writeEnd, .close inv.host.freeNumber,
        .forget (.text (message ++ "\n"))] := by
  obtain ⟨w, hnew, h⟩ :=
    exists_at_newContext inv.programName inv.host inv.identity (some ⟨filter, inv.time⟩)
  obtain ⟨b, w₁, henter, h₁⟩ := h.enterCall (by decide)
  obtain ⟨t, i, j, host, w₂, hexec, h₂, hlends, houtput⟩ :=
    h₁.sendMessage (by show 2 + 4 ≤ Slots.capacity; decide) hlimit hprints.hasOutput hfits
      (Sink.takes_of_working hprints.working _)
  have happend : [(b, Forest.nil), (topScope, Forest.nil)] =
    [] ++ (b, Forest.nil) :: (topScope, (Forest.nil : Forest Release)) :: [] := rfl
  rw [happend] at h₂
  obtain ⟨w', hprotect, h'⟩ := World.At.protect_returned henter hexec h₂
  exact ⟨w, w', host, hnew, hprotect, run_of_returned hargs hset hnew hprotect h' (.nil host),
    congrArg Sink.content houtput, hasReleased_of_at h' rfl hlends⟩

/-- A line that does not fit is refused in the call, which releases the text. -/
theorem exists_protect_of_long
    (hargs : Request.ofArguments? inv.arguments = some (.command (.pipe message)))
    (hset : inv.settings = .ok (config, filter))
    (hlong : Command.messageLimit < (Utf8.encode (message ++ "\n")).length) :
    ∃ w w' report, (Run.newContext inv.programName).exec (inv.world filter) = (.ok 0, w) ∧
      (Run.protect 0 .message (Command.execute 0 config (.pipe message))).exec w =
        (.ok (.error report), w') ∧
      inv.run = fail inv.host (inv.programName ++ ": " ++ "message longer than 4096 bytes") ∧
      inv.HasReleased w' [.forget (.text (message ++ "\n"))] := by
  obtain ⟨w, hnew, h⟩ :=
    exists_at_newContext inv.programName inv.host inv.identity (some ⟨filter, inv.time⟩)
  obtain ⟨b, w₁, henter, h₁⟩ := h.enterCall (by decide)
  obtain ⟨s, t, w₂, hexec, h₂⟩ :=
    h₁.sendMessage_refused (by show 2 + 2 ≤ Slots.capacity; decide) hlong
  have happend : [(s, Forest.nil), (b, Forest.nil), (topScope, Forest.nil)] =
    [(s, Forest.nil)] ++ (b, Forest.nil) :: (topScope, (Forest.nil : Forest Release)) :: [] := rfl
  rw [happend] at h₂
  obtain ⟨w', hprotect, h'⟩ :=
    World.At.protect_failed henter hexec rfl h₂ (.forget _ (.nil inv.host))
  have hrun := run_of_reported hargs hset hnew hprotect h'
  refine ⟨w, w', _, hnew, hprotect, ?_, hasReleased_of_at h' rfl inv.host.lends_nothing⟩
  rw [hrun, Failure.report, Report.display, describe]

end Invocation

/-- A message whose line fits into a pipe is what the output gets, with a line's end; any
    other is refused before there is a pipe.  The pipe takes the line at once and gives it back
    at once.  Before the protected call of the command returns, the text and both ends of the
    pipe have been released.

    A pipe can be made as long as there are descriptors for its ends; a message that is refused
    asks for none.  Its exit status is that of a panic if standard error does not take what is
    said. -/
theorem pipe_echoes {inv : Invocation} {message : String} {config : Config} {filter : LogFilter}
    (hargs : Request.ofArguments? inv.arguments = some (.command (.pipe message)))
    (hset : inv.settings = .ok (config, filter)) (hprints : inv.host.Prints) :
    (2 ≤ inv.host.room → Utf8.size message ≤ 4095 →
      inv.run.status = Invocation.successStatus ∧
        inv.run.host.output.content = inv.host.output.content ++ Utf8.encode (message ++ "\n") ∧
        inv.PassesAtOnce message ∧
        ∃ w w' readEnd writeEnd,
          (Run.newContext inv.programName).exec (inv.world filter) = (.ok 0, w) ∧
          (Run.protect 0 .message (Command.execute 0 config (.pipe message))).exec w =
            (.ok (.ok ()), w') ∧
          inv.host.isOpen readEnd = false ∧ inv.host.isOpen writeEnd = false ∧ readEnd ≠ writeEnd ∧
          inv.HasReleased w' [.close writeEnd, .close readEnd, .forget (.text (message ++ "\n"))]) ∧
    (4095 < Utf8.size message →
      inv.run.host.output = inv.host.output ∧ inv.run.host.pipes = inv.host.pipes ∧
        (inv.host.error.condition = .working →
          inv.run.status = Invocation.failureStatus ∧
            inv.run.host.error.content = inv.host.error.content ++
              Utf8.encode (inv.programName ++ ": message longer than 4096 bytes\n")) ∧
        ∃ w w' report,
          (Run.newContext inv.programName).exec (inv.world filter) = (.ok 0, w) ∧
          (Run.protect 0 .message (Command.execute 0 config (.pipe message))).exec w =
            (.ok (.error report), w') ∧
          inv.HasReleased w' [.forget (.text (message ++ "\n"))]) := by
  have hsize : (Utf8.encode (message ++ "\n")).length = Utf8.size message + 1 := by
    rw [Utf8.encode_line, List.length_append]
    rfl
  refine ⟨fun hlimit hshort => ?_, fun hlong => ?_⟩
  · have hfits : (Utf8.encode (message ++ "\n")).length ≤ Command.messageLimit := by
      rw [hsize]
      exact Nat.succ_le_succ hshort
    obtain ⟨w, w', host, hnew, hprotect, hrun, houtput, hreleased⟩ :=
      Invocation.exists_protect_of_fits hargs hset hprints hlimit hfits
    obtain ⟨hread, hwrite, hne⟩ := inv.host.free_pipeEnds
    rw [hrun]
    exact ⟨rfl, houtput, Invocation.passesAtOnce hlimit hfits, w, w', _, _, hnew, hprotect,
      hread, hwrite, hne, hreleased⟩
  · have hlonger : Command.messageLimit < (Utf8.encode (message ++ "\n")).length := by
      rw [hsize]
      exact Nat.succ_lt_succ hlong
    obtain ⟨w, w', report, hnew, hprotect, hrun, hreleased⟩ :=
      Invocation.exists_protect_of_long hargs hset hlonger
    rw [hrun, Invocation.fail_eq]
    refine ⟨rfl, rfl, fun hworking => ⟨?_, ?_⟩, w, w', report, hnew, hprotect, hreleased⟩
    · rw [Invocation.status_fail rfl, Invocation.faultStatus, if_pos hworking]
    · have hwords : ": message longer than 4096 bytes\n" =
        ": " ++ ("message longer than 4096 bytes" ++ "\n") := rfl
      rw [hwords, ← String.append_assoc, ← String.append_assoc]
      exact Invocation.content_lastWords hworking "message longer than 4096 bytes"

/-- What does not begin with a dash is a message. -/
theorem Request.ofArguments?_pipe {message : String}
    (hdash : (Utf8.encode message).head? ≠ some dash) :
    ofArguments? [Utf8.encode "pipe", Utf8.encode message] = some (.command (.pipe message)) := by
  have hversion : asksVersion (Utf8.encode "pipe") = false := by decide +kernel
  have hoption : isOption (Utf8.encode message) = false := by
    simp [isOption, hdash]
  have hend : Utf8.encode message ≠ [dash, dash] := fun heq => hdash (by rw [heq]; rfl)
  rw [ofArguments?, if_neg (by rw [hversion]; decide), Utf8.decode?_encode]
  simp [operands?, hoption, hend, command?, Utf8.decode?_encode]

/-- A message of some bytes. -/
def plainMessage (length : Nat) : String := String.ofList (List.replicate length 'a')

theorem encode_plainMessage (n : Nat) : Utf8.encode (plainMessage n) = List.replicate n 0x61 := by
  rw [plainMessage, Utf8.encode, String.toList_ofList, List.flatMap_replicate]
  exact List.flatten_replicate_singleton

theorem plainMessage_noDash (n : Nat) :
    (Utf8.encode (plainMessage n)).head? ≠ some Request.dash := by
  rw [encode_plainMessage]
  cases n <;> simp [List.replicate_succ, Request.dash]

theorem size_plainMessage (n : Nat) : Utf8.size (plainMessage n) = n := by
  rw [Utf8.size, encode_plainMessage, List.length_replicate]

/-- An invocation that sends a message. -/
def sending (message : String) : Invocation where
  calledAs := Path.ofText "unwound"
  arguments := [Utf8.encode "pipe", Utf8.encode message]
  setting? := fun _ => none
  host := .new .standard
  identity := "0001"
  time := "-"

/-- The theorem above for a message of one character and two bytes, and for one that is a
    byte too long. -/
theorem pipe_echoes_tooLong :
    (sending "\u00fc").run.host.output.content = [0xC3, 0xBC, 0x0A] ∧
      (sending "\u00fc").run.status = 0 ∧
      (sending (plainMessage 4096)).run.host.output.content = [] ∧
      (sending (plainMessage 4096)).run.status = 1 ∧
      (sending (plainMessage 4096)).run.host.error.content =
        Utf8.encode "unwound: message longer than 4096 bytes\n" := by
  have hprints : ∀ message, (sending message).host.Prints := fun _ =>
    ⟨⟨⟨1, false⟩, ⟨.stream .output, StatusWord.ofAccess .writeOnly, 0, false⟩, rfl, rfl,
      by decide, rfl⟩, rfl⟩
  obtain ⟨filter, hset⟩ := (sending "\u00fc").settings_of_unset fun _ => rfl
  obtain ⟨filter', hset'⟩ := (sending (plainMessage 4096)).settings_of_unset fun _ => rfl
  obtain ⟨hechoes, -⟩ :=
    pipe_echoes (Request.ofArguments?_pipe (by decide +kernel)) hset (hprints _)
  have hargs : ∀ n, Request.ofArguments? (sending (plainMessage n)).arguments =
      some (.command (.pipe (plainMessage n))) := fun n =>
    Request.ofArguments?_pipe (plainMessage_noDash n)
  obtain ⟨-, hrefuses⟩ := pipe_echoes (hargs 4096) hset' (hprints _)
  have hlimit : 2 ≤ (sending "\u00fc").host.room := by
    have hleft := (sending "\u00fc").host.limit_le_room_add
    have hsize : (sending "\u00fc").host.descriptors.size = 3 := rfl
    have hlimit : ((sending "\u00fc").host.limit : ℕ) = 1024 := by decide
    omega
  obtain ⟨hstatus, hcontent, -⟩ := hechoes hlimit (by decide +kernel)
  obtain ⟨hnothing, -, hsaid, -⟩ := hrefuses (by rw [size_plainMessage]; decide)
  exact ⟨hcontent.trans (by decide +kernel), hstatus, by rw [hnothing]; rfl, (hsaid rfl).1,
    (hsaid rfl).2.trans (by decide +kernel)⟩

end ScopedResources