/-
  What a command asks for, one operation after the other.

  Each operation is described where it is asked for: by the context that is at work in a
  protected call, and by the host.

  * `Host.refusal?` and `Host.content?`: what is wrong with a path that cannot be opened, and
    what a path that can be opened holds.
  * `At.openFile`, `At.openFile_refused`, `At.duplicateHandle`, `At.blockingMode`.
  * `At.readToEnd`: what has an end is read to its end, or not at all; `At.readExact_of_read`.
  * `At.writeAll`: `Sink.takes` is what the output makes of a text; `At.writeAll_of_write`.
-/
import ScopedResources.Proofs.Lending
import ScopedResources.Proofs.Room

namespace ScopedResources

/-! ## Paths and what they hold -/

/-- What a file that may be read holds; a directory cannot be read, nor can what waits for
    somebody or has no end. -/
def FileNode.content? : FileNode → Option Bytes
  | file _ content => some content
  | device .null => some []
  | directory _ _ | device _ | terminal _ => none

/-- Reading comes to an end, without waiting for anybody. -/
def FileNode.Ends : FileNode → Prop
  | file _ content => content.length ≤ Run.unlimited
  | directory _ _ => True
  | device d => d = .null
  | terminal _ => False

namespace Files

variable {fs : Files} {path : Bytes} {id : FileId}

theorem exists_node_of_checkReadable {asDirectory : Bool}
    (h : fs.checkReadable id asDirectory = .ok ()) :
    ∃ node, fs.node? id = some node ∧ (asDirectory = true → fs.isDirectory id = true) := by
  unfold checkReadable at h
  rcases hnode : fs.node? id with _ | node <;> rw [hnode] at h
  · cases h
  · refine ⟨node, rfl, fun hd => ?_⟩
    rw [hd] at h
    rcases node with _ | _ | _ | _
    · cases h
    · rw [isDirectory, hnode]
    · cases h
    · cases h

/-- What opening finds is what the path leads to, and it is there. -/
theorem find_of_sought (hpath : checkPath path = .ok ()) (h : fs.sought path = .ok id) :
    fs.find path = .ok id ∧ ∃ node, fs.node? id = some node := by
  rw [find, hpath]
  simp only [sought, bind, Except.bind] at h ⊢
  rcases hplace : fs.locate path with e | ⟨directory, name⟩ | found <;> rw [hplace] at h
  · cases h
  · dsimp only at h ⊢
    rcases hstep : fs.step directory name with e | found <;> rw [hstep] at h
    · cases h
    · dsimp only at h ⊢
      split at h
      · cases h
      · rename_i hcheck
        cases h
        obtain ⟨node, hnode, hdirectory⟩ := exists_node_of_checkReadable hcheck
        refine ⟨if_neg ?_, node, hnode⟩
        rw [Bool.and_eq_true, decide_eq_true_iff, Bool.not_eq_true']
        rintro ⟨hslash, hnot⟩
        rw [hdirectory (decide_eq_true hslash)] at hnot
        cases hnot
  · dsimp only at h ⊢
    split at h
    · cases h
    · rename_i hcheck
      cases h
      obtain ⟨node, hnode, -⟩ := exists_node_of_checkReadable hcheck
      exact ⟨rfl, node, hnode⟩

end Files

namespace Host

variable {h : Host} {path : Bytes} {id : FileId}

/-- Why a path cannot be opened to read it, in words. -/
def refusal? (h : Host) (path : Bytes) : Option String :=
  if path.contains 0 then some "path contains a NUL byte"
  else
    match ((Host.openFile path Command.forReading 0).exec h).1 with
    | .ok _ => none
    | .error e => some (IoError.os e).message

/-- What the file holds that a path leads to, if there is one that can be read. -/
def content? (h : Host) (path : Bytes) : Option Bytes :=
  match h.files.find path with
  | .ok id => (h.files.node? id).bind (·.content?)
  | .error _ => none

/-- What a path leads to has an end. -/
def Ends (h : Host) (path : Bytes) : Prop :=
  ∀ id node, h.files.find path = .ok id → h.files.node? id = some node → node.Ends

/-- A path that can be opened is found, where there is a descriptor for it. -/
theorem exists_sought (hopens : h.refusal? path = none) :
    path.contains 0 = false ∧ ∃ id, h.sought path = .ok id := by
  unfold refusal? at hopens
  split at hopens
  · cases hopens
  · rename_i hnul
    refine ⟨Bool.not_eq_true _ ▸ hnul, ?_⟩
    rw [exec_openFile] at hopens
    rcases hsought : h.sought path with e | id
    · rw [hsought] at hopens
      cases hopens
    · exact ⟨id, rfl⟩

theorem sought_cases (hid : h.sought path = .ok id) :
    ¬ h.exhausted = true ∧ Files.checkPath path = .ok () ∧ h.files.sought path = .ok id := by
  simp only [sought, bind, Except.bind] at hid
  rcases hpath : Files.checkPath path with e | ⟨⟩ <;> rw [hpath] at hid
  · cases hid
  · dsimp only at hid
    by_cases hx : h.exhausted = true
    · rw [if_pos hx] at hid; cases hid
    · rw [if_neg hx] at hid
      exact ⟨hx, rfl, hid⟩

/-- What is opened is what the path leads to. -/
theorem exists_node_of_sought (hpath : Files.checkPath path = .ok ())
    (hfound : h.files.sought path = .ok id) (hends : h.Ends path) :
    ∃ node, h.files.node? id = some node ∧ node.Ends ∧ node.content? = h.content? path := by
  obtain ⟨hfind, node, hnode⟩ := h.files.find_of_sought hpath hfound
  refine ⟨node, hnode, hends id node hfind hnode, ?_⟩
  rw [content?, hfind]
  dsimp only
  rw [hnode]
  rfl

end Host

/-- What a stream makes of a whole text; nothing is not even written. -/
def Sink.takes (sink : Sink) (bytes : Bytes) : Except Errno Sink :=
  if bytes = [] then .ok sink else sink.write bytes

theorem Run.exec_granted_ok {α : Type} (k : ContextId) (what : Run String) (a : α) (w : World) :
    (Run.granted k what (.ok a)).exec w = (.ok a, w) := rfl

theorem Run.exec_statusWord {w : World} {fd : Int} {n : Nat} {file : OpenFile}
    (hr : w.host.Refers fd n file) (k : ContextId) :
    (Run.statusWord k fd).exec w = (.ok file.status, w) := by
  have hhost : (Run.host (Host.status fd)).exec w = (.ok (.ok file.status), w) := by
    rw [exec_host, Host.exec_status hr]
  rw [statusWord, exec_bind_ok hhost]
  rfl

theorem Run.exec_blockingMode {w : World} {fd : Int} {n : Nat} {file : OpenFile}
    (hr : w.host.Refers fd n file) (k : ContextId) :
    (Run.blockingMode k fd).exec w = (.ok (.ofStatus file.status), w) := by
  rw [blockingMode, exec_bind_ok (exec_statusWord hr k)]
  rfl

theorem Host.exec_duplicate {host : Host} {fd : Int} {n : Nat} {file : OpenFile}
    (hr : host.Refers fd n file) (hx : ¬ host.exhausted = true) :
    (Host.duplicate fd).exec host = (.ok host.freeNumber, host.place host.freeNumber ⟨n, true⟩) := by
  obtain ⟨d, hd, rfl⟩ := Option.map_eq_some_iff.1 hr.number
  have hlimit : ¬ host.limit = 0 := fun hzero => by
    have hlt := not_exhausted_iff.1 hx
    rw [hzero] at hlt
    exact Nat.not_lt_zero _ hlt
  rw [duplicate, exec_get_bind, hd]
  dsimp only
  rw [if_neg hlimit, exec_giveOut, if_neg hx]

namespace World.At

open Run

variable {w : World} {k : ContextId} {s : Scene} {levels outer : List (Index × Forest Release)}
  {inner x : Forest Release} {b p : Index} {depth : Nat} {program : String} {host : Host}
  {ran : List (Due Release)} {path : Bytes} {fd : Int} {n : Nat} {file : OpenFile} {id : FileId}

/-! ## Opening -/

theorem openFile (h : w.At k ⟨levels, inner, some ⟨b, .message, depth⟩, program, host, ran⟩)
    (hroom : (inner.indices ++ Forest.around levels).length < Slots.capacity)
    (hnul : path.contains 0 = false) (hid : host.sought path = .ok id) :
    ∃ i w', (Run.openFile k path Command.forReading 0).exec w = (.ok host.freeNumber, w') ∧
      w'.At k ⟨levels, .record i (some (.close host.freeNumber)) inner, some ⟨b, .message, depth⟩,
        program, host.installed (Host.freshFile id), ran⟩ := by
  obtain ⟨i, w₁, hreserve, h₁⟩ := h.reserve hroom
  have hcall : (Host.openFile path Command.forReading 0).exec host =
      (.ok host.freeNumber, host.installed (Host.freshFile id)) := by rw [Host.exec_openFile, hid]
  obtain ⟨w₂, hhost, h₂⟩ := h₁.onHost hcall
  obtain ⟨w₃, hcommit, h₃⟩ := h₂.commit_newest (.close host.freeNumber)
  refine ⟨i, w₃, ?_, h₃⟩
  rw [Run.openFile, exec_bind_ok hreserve, if_neg (by rw [hnul]; decide), exec_bind_ok hhost,
    exec_bind_ok (exec_granted_ok k _ host.freeNumber w₂), commitClose, exec_bind_ok hcommit]
  rfl

/-- A path that is refused leaves a record without a release. -/
theorem openFile_refused {fault : String}
    (h : w.At k ⟨levels, inner, some ⟨b, .message, depth⟩, program, host, ran⟩)
    (hroom : (inner.indices ++ Forest.around levels).length < Slots.capacity)
    (hfault : host.refusal? path = some fault) :
    ∃ i code w', (Run.openFile k path Command.forReading 0).exec w =
        (.error (.failure ⟨code, some (openingText path ++ (": " ++ fault)), some program, depth⟩),
          w') ∧
      w'.At k ⟨levels, .record i none inner, some ⟨b, .message, depth⟩, program, host, ran⟩ := by
  obtain ⟨i, w₁, hreserve, h₁⟩ := h.reserve hroom
  unfold Host.refusal? at hfault
  split at hfault
  · rename_i hnul
    cases hfault
    obtain ⟨w₂, hthrow, h₂⟩ := h₁.throwing (α := PUnit) Errno.invalidArgument
      (.rendered (openingText path ++ ": path contains a NUL byte") false)
    refine ⟨i, Errno.invalidArgument, w₂, ?_, h₂⟩
    rw [Run.openFile, exec_bind_ok hreserve, if_pos hnul]
    exact exec_bind_error hthrow
  · rename_i hnul
    have hcall := Host.exec_openFile path 0 host
    rcases hsought : host.sought path with e | id
    · rw [hsought] at hcall
      rw [hcall] at hfault
      cases hfault
      obtain ⟨w₂, hhost, h₂⟩ := h₁.onHost hcall
      obtain ⟨w₃, hgranted, h₃⟩ := h₂.granted_error (α := Nat) (exec_pure (openingText path) w₂) e
      refine ⟨i, (IoError.os e).code, w₃, ?_, h₃⟩
      rw [Run.openFile, exec_bind_ok hreserve, if_neg hnul, exec_bind_ok hhost]
      exact exec_bind_error hgranted
    · rw [hsought] at hcall
      rw [hcall] at hfault
      cases hfault

/-- A handle on a duplicate: a scope with the record that closes it. -/
theorem duplicateHandle
    (h : w.At k ⟨(p, x) :: outer, inner, some ⟨b, .message, depth⟩, program, host, ran⟩)
    (hroom : (inner.indices ++ Forest.around ((p, x) :: outer)).length + 1 < Slots.capacity)
    (hr : host.Refers fd n file) (hx : ¬ host.exhausted = true) :
    ∃ s i w', (Run.duplicateHandle k fd).exec w = (.ok ⟨s, host.freeNumber⟩, w') ∧
      w'.At k ⟨(p, x) :: outer,
        .scope s (.record i (some (.close host.freeNumber)) .nil) inner, some ⟨b, .message, depth⟩,
        program, host.place host.freeNumber ⟨n, true⟩, ran⟩ := by
  obtain ⟨s, w₁, hpush, h₁⟩ := h.pushScope (Nat.lt_of_succ_lt hroom)
  obtain ⟨i, w₂, hreserve, h₂⟩ := h₁.reserve (by
    simp only [Forest.indices, Forest.around_cons, List.length_append, List.length_cons,
      List.length_nil] at hroom ⊢
    omega)
  obtain ⟨w₃, hhost, h₃⟩ := h₂.onHost (Host.exec_duplicate hr hx)
  obtain ⟨w₄, hcommit, h₄⟩ := h₃.commit_newest (.close host.freeNumber)
  obtain ⟨w₅, hpop, h₅⟩ := h₄.popScope
  refine ⟨s, i, w₅, ?_, h₅⟩
  have hduplicate : (Run.duplicate k fd).exec w₁ = (.ok host.freeNumber, w₄) := by
    rw [Run.duplicate, exec_bind_ok hreserve, exec_bind_ok hhost,
      exec_bind_ok (exec_granted_ok k _ host.freeNumber w₃), commitClose, exec_bind_ok hcommit]
    rfl
  show (Run.pushScope k >>= _ : Run _).exec w = _
  rw [exec_bind_ok hpush]
  show (Run.duplicate k fd >>= _ : Run _).exec w₁ = _
  rw [exec_bind_ok hduplicate]
  show (Run.popScope k >>= _ : Run _).exec w₄ = _
  rw [exec_bind_ok hpop]
  rfl

/-- A handle whose scope is the newest one is destroyed. -/
theorem destroyHandle {α : Type} {s : Index} {below older : Forest Release} {frame : Option Frame}
    {host' : Host} (h : w.At k ⟨levels, .scope s below older, frame, program, host, ran⟩)
    (hcloses : host.Closes (below.due.map (·.release)) host') (value : α) :
    ∃ w', (Run.destroyHandle k ⟨s, value⟩).exec w = (.ok true, w') ∧
      w'.At k ⟨levels, older, frame, program, host', below.due.reverse ++ ran⟩ := by
  obtain ⟨w', hdestroy, h'⟩ := h.destroyScope hcloses
  refine ⟨w', ?_, h'⟩
  rw [Run.destroyHandle, exec_bind_ok hdestroy]
  rfl

/-- The mode of a descriptor that is open can be told. -/
theorem blockingMode (h : w.At k s) (hr : s.host.Refers fd n file) :
    (Run.blockingMode k fd).exec w = (.ok (.ofStatus file.status), w) := by
  rw [← h.host] at hr
  exact exec_blockingMode hr k

/-! ## Reading -/

theorem exec_checkPossible (hfd : fd ≠ -1) (w : World) :
    (checkPossible fd).exec w = (.ok (), w) := by
  rw [checkPossible, if_neg hfd]
  rfl

theorem exec_readingText (h : w.At k s) (fd : Int) :
    (readingText fd).exec w = (.ok ("read(" ++ toString fd ++ ")"), w) := by
  rw [readingText, exec_bind_ok (h.describe fd)]
  rfl

/-- What a first read gives is all that there is, if a second one meets the end. -/
theorem readToEnd_of_reads {frame : Option Frame} {host₁ host₂ : Host} {bytes : Bytes}
    (h : w.At k ⟨levels, inner, frame, program, host, ran⟩) (hfd : fd ≠ -1)
    (hfirst : (Host.read fd unlimited).exec host = (.ok bytes, host₁))
    (hsecond : (Host.read fd unlimited).exec host₁ = (.ok [], host₂)) :
    ∃ w', (Run.readToEnd k fd).exec w = (.ok bytes, w') ∧
      w'.At k ⟨levels, inner, frame, program, if bytes = [] then host₁ else host₂, ran⟩ := by
  obtain ⟨w₁, hread₁, h₁⟩ := h.onHost hfirst
  rw [Run.readToEnd, exec_bind_ok (exec_checkPossible hfd w), exec_bind_ok hread₁,
    exec_bind_ok (exec_granted_ok k _ bytes w₁)]
  by_cases hempty : bytes = []
  · rw [if_pos hempty, if_pos hempty]
    exact ⟨w₁, by rw [hempty]; rfl, h₁⟩
  · obtain ⟨w₂, hread₂, h₂⟩ := h₁.onHost hsecond
    rw [if_neg hempty, if_neg hempty]
    refine ⟨w₂, ?_, h₂⟩
    show (Run.host (Host.read fd unlimited) >>= _ : Run _).exec w₁ = _
    rw [exec_bind_ok hread₂, exec_bind_ok (exec_granted_ok k _ [] w₂), List.append_nil]
    rfl

/-- What can be opened and has an end is read to it, which moves the position of the open file
    and nothing else. -/
theorem readToEnd {frame : Option Frame} {node : FileNode} {content : Bytes}
    (h : w.At k ⟨levels, inner, frame, program, host, ran⟩) (hfd : fd ≠ -1)
    (hr : host.Refers fd n (Host.freshFile id)) (hnode : host.files.node? id = some node)
    (hends : node.Ends) (hcontent : node.content? = some content) :
    ∃ file' w', (Run.readToEnd k fd).exec w = (.ok content, w') ∧
      w'.At k ⟨levels, inner, frame, program,
        { host with openFiles := host.openFiles.setIfInBounds n file' }, ran⟩ := by
  have hmay : (Host.freshFile id).status.access.mayRead = true := Host.mayRead_freshFile id
  rcases node with ⟨mode, bytes⟩ | _ | _ | _
  · cases hcontent
    have hall : (content.drop 0).take unlimited = content := List.take_of_length_le hends
    have hfirst := Host.exec_read_file hr hmay rfl hnode unlimited
    rw [show (Host.freshFile id).offset = 0 from rfl, hall] at hfirst
    have hsecond := Host.exec_read_file
      (hr.set { Host.freshFile id with offset := 0 + content.length }) hmay rfl hnode unlimited
    have hrest : (content.drop (0 + content.length)).take unlimited = [] := by simp
    dsimp only at hsecond
    rw [hrest] at hsecond
    obtain ⟨w', hexec, h'⟩ := h.readToEnd_of_reads hfd hfirst hsecond
    refine ⟨{ Host.freshFile id with offset := 0 + content.length }, w', hexec, ?_⟩
    split at h'
    · exact h'
    · simpa [Host.advanced] using h'
  · cases hcontent
  · obtain rfl : _ = Device.null := hends
    cases hcontent
    have hnull := Host.exec_read_null hr hmay rfl hnode unlimited
    obtain ⟨w', hexec, h'⟩ := h.readToEnd_of_reads hfd hnull hnull
    refine ⟨Host.freshFile id, w', hexec, ?_⟩
    rwa [hr.set_self]
  · cases hcontent

/-- What can be opened but has no content, a directory, cannot be read. -/
theorem readToEnd_refused {node : FileNode}
    (h : w.At k ⟨levels, inner, some ⟨b, .message, depth⟩, program, host, ran⟩) (hfd : fd ≠ -1)
    (hr : host.Refers fd n (Host.freshFile id)) (hnode : host.files.node? id = some node)
    (hends : node.Ends) (hcontent : node.content? = none) :
    ∃ w', (Run.readToEnd k fd).exec w = (.error (.failure ⟨Errno.isDirectory,
          some ("read(" ++ toString fd ++ ")" ++ (": " ++ (IoError.os Errno.isDirectory).message)),
          some program, depth⟩), w') ∧
      w'.At k ⟨levels, inner, some ⟨b, .message, depth⟩, program, host, ran⟩ := by
  rcases node with _ | ⟨parent, entries⟩ | _ | _
  · cases hcontent
  · obtain ⟨w₁, hread, h₁⟩ := h.onHost (Host.exec_read_directory hr (Host.mayRead_freshFile id) rfl
      hnode unlimited)
    obtain ⟨w₂, hgranted, h₂⟩ :=
      h₁.granted_error (α := Bytes) (h₁.exec_readingText fd) Errno.isDirectory
    refine ⟨w₂, ?_, h₂⟩
    rw [Run.readToEnd, exec_bind_ok (exec_checkPossible hfd w), exec_bind_ok hread]
    exact exec_bind_error hgranted
  · obtain rfl : _ = Device.null := hends
    cases hcontent
  · exact hends.elim

/-- What is there in one go is read. -/
theorem readExact_of_read {frame : Option Frame} {bytes : Bytes} {host' : Host}
    (h : w.At k ⟨levels, inner, frame, program, host, ran⟩) (hfd : fd ≠ -1) (hne : bytes ≠ [])
    (hread : (Host.read fd bytes.length).exec host = (.ok bytes, host')) :
    ∃ w', (Run.readExact k fd bytes.length).exec w = (.ok bytes, w') ∧
      w'.At k ⟨levels, inner, frame, program, host', ran⟩ := by
  obtain ⟨w', hexec, h'⟩ := h.onHost hread
  refine ⟨w', ?_, h'⟩
  rw [Run.readExact, exec_bind_ok (exec_checkPossible hfd w),
    if_neg (mt List.length_eq_zero_iff.1 hne)]
  show (Run.host (Host.read fd bytes.length) >>= _ : Run _).exec w = _
  rw [exec_bind_ok hexec, exec_bind_ok (exec_granted_ok k _ bytes w'), if_pos rfl]
  rfl

/-! ## Writing -/

/-- What is taken in one go is written. -/
theorem writeAll_of_write {frame : Option Frame} {bytes : Bytes} {host' : Host}
    (h : w.At k ⟨levels, inner, frame, program, host, ran⟩) (hfd : fd ≠ -1) (hne : bytes ≠ [])
    (hwrite : (Host.write fd bytes).exec host = (.ok bytes.length, host')) :
    ∃ w', (Run.writeAll k fd bytes).exec w = (.ok (), w') ∧
      w'.At k ⟨levels, inner, frame, program, host', ran⟩ := by
  obtain ⟨w', hexec, h'⟩ := h.onHost hwrite
  refine ⟨w', ?_, h'⟩
  obtain ⟨n, hn⟩ : ∃ n, bytes.length = n + 1 :=
    Nat.exists_eq_succ_of_ne_zero (mt List.length_eq_zero_iff.1 hne)
  have hrest : (writeWithin fd n []).exec w' = (.ok (.ok ()), w') := by cases n <;> rfl
  have hdrop : bytes.drop (n + 1) = [] := by rw [← hn, List.drop_length]
  have hwithin : (writeWithin fd bytes.length bytes).exec w = (.ok (.ok ()), w') := by
    rw [hn, writeWithin, if_neg hne, exec_bind_ok hexec, hn]
    show (writeWithin fd n (bytes.drop (n + 1))).exec w' = _
    rw [hdrop, hrest]
  rw [Run.writeAll, exec_bind_ok (exec_checkPossible hfd w), exec_bind_ok hwithin]
  rfl

/-- A text that the output takes is written in one go. -/
theorem writeAll {frame : Option Frame} {bytes : Bytes} {sink : Sink}
    (h : w.At k ⟨levels, inner, frame, program, host, ran⟩) (ho : host.HasOutput)
    (htakes : host.output.takes bytes = .ok sink) :
    ∃ w', (Run.writeAll k Command.standardOutput bytes).exec w = (.ok (), w') ∧
      w'.At k ⟨levels, inner, frame, program, { host with output := sink }, ran⟩ := by
  rcases bytes with _ | ⟨byte, bytes⟩
  · cases htakes
    exact ⟨w, rfl, h⟩
  · have hwrite := Host.exec_write_output ho (byte :: bytes)
    rw [show host.output.write (byte :: bytes) = .ok sink from htakes] at hwrite
    exact h.writeAll_of_write (by decide) (List.cons_ne_nil byte bytes) hwrite

theorem writeAll_refused {bytes : Bytes} {e : Errno}
    (h : w.At k ⟨levels, inner, some ⟨b, .message, depth⟩, program, host, ran⟩) (ho : host.HasOutput)
    (htakes : host.output.takes bytes = .error e) :
    ∃ w', (Run.writeAll k Command.standardOutput bytes).exec w =
        (.error (.failure ⟨(IoError.os e).code, some ("write(1)" ++ (": " ++ (IoError.os e).message)),
          some program, depth⟩), w') ∧
      w'.At k ⟨levels, inner, some ⟨b, .message, depth⟩, program, host, ran⟩ := by
  rcases bytes with _ | ⟨byte, bytes⟩
  · cases htakes
  have hwrite := Host.exec_write_output ho (byte :: bytes)
  rw [show host.output.write (byte :: bytes) = .error e from htakes] at hwrite
  obtain ⟨w₁, hexec, h₁⟩ := h.onHost hwrite
  have hwithin : (writeWithin Command.standardOutput (byte :: bytes).length (byte :: bytes)).exec w =
      (.ok (.error (.os e)), w₁) := by
    rw [List.length_cons, writeWithin, if_neg (List.cons_ne_nil byte bytes)]
    show (Run.host (Host.write 1 (byte :: bytes)) >>= _ : Run _).exec w = _
    rw [exec_bind_ok hexec]
    rfl
  obtain ⟨w₂, hthrow, h₂⟩ := h₁.throwing_failIo (α := Unit) (.os e) "write(1)"
  refine ⟨w₂, ?_, h₂⟩
  have htext : (writingText Command.standardOutput).exec w₁ = (.ok "write(1)", w₁) := by
    rw [writingText, exec_bind_ok (h₁.describe Command.standardOutput)]
    rfl
  rw [Run.writeAll, exec_bind_ok (exec_checkPossible (by decide) w), exec_bind_ok hwithin]
  show (writingText Command.standardOutput >>= _ : Run _).exec w₁ = _
  rw [exec_bind_ok htext, hthrow]

end World.At

end ScopedResources
