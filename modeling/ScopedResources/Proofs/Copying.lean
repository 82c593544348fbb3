/-
  Copying files to the output, all of them opened first.

  Nothing is written before every file is open, so a file that cannot be opened leaves the
  output as it was.  After that, files are copied one after the other, up to the first that
  cannot be read or written.

  * `Host.OpensAll`: files are opened, and all of them kept open; `OpensAll.room`: each of
    them takes a descriptor, so there can be one that is refused because of the others.
  * `Host.openingAll`, `Host.openings`: a host after some files were opened, and the
    descriptors that they were opened on; `At.openFiles` is the loop that opens them.
  * `Sink.pour`: what a stream makes of some contents; `At.pour` is the loop that copies.
  * `cat_all_or_nothing`: how the command ends, and with what on the output.
-/
import ScopedResources.Proofs.Commands
import ScopedResources.Proofs.Configuration

namespace ScopedResources

/-! ## Opening all of them -/

/-- A file that was opened: its descriptor, its open file, and its number. -/
structure Opening where
  fd : Nat
  openFile : Nat
  id : FileId

namespace Host

variable {base h host : Host} {fd : Int} {n : Nat} {file : OpenFile} {path : Bytes}
  {held : List Int} {o : Opening} {os : List Opening}

/-- A host after some files were opened to read them, one after the other. -/
def openingAll (h : Host) : List FileId → Host
  | [] => h
  | id :: ids => (h.installed (freshFile id)).openingAll ids

/-- What the files were opened as. -/
def openings (h : Host) : List FileId → List Opening
  | [] => []
  | id :: ids => ⟨h.freeNumber, h.openFiles.size, id⟩ :: (h.installed (freshFile id)).openings ids

theorem output_installed (h : Host) (file : OpenFile) : (h.installed file).output = h.output := by
  rw [installed_eq]

theorem size_installed (h : Host) (file : OpenFile) :
    (h.installed file).openFiles.size = h.openFiles.size + 1 := by
  rw [installed_eq, Array.size_push]

theorem output_openingAll (h : Host) (ids : List FileId) : (h.openingAll ids).output = h.output := by
  induction ids generalizing h with
  | nil => rfl
  | cons id ids ih => rw [openingAll, ih, output_installed]

theorem ids_openings (h : Host) (ids : List FileId) : (h.openings ids).map (·.id) = ids := by
  induction ids generalizing h with
  | nil => rfl
  | cons id ids ih => rw [openings, List.map_cons, ih]

theorem length_openings (h : Host) (ids : List FileId) : (h.openings ids).length = ids.length := by
  rw [← List.length_map, ids_openings]

theorem Refers.openingAll (hr : h.Refers fd n file) (ids : List FileId) :
    (h.openingAll ids).Refers fd n file := by
  induction ids generalizing h with
  | nil => exact hr
  | cons id ids ih => exact ih (hr.installed (freshFile id))

/-- Descriptors that refer to open files of their own, from which nothing has been read. -/
structure Ready (base host : Host) (os : List Opening) : Prop where
  refers : ∀ o ∈ os, host.Refers o.fd o.openFile (freshFile o.id)
  new : ∀ o ∈ os, base.openFiles.size ≤ o.openFile
  apart : (os.map (·.openFile)).Nodup

theorem ready_openings (h : Host) (ids : List FileId) :
    h.Ready (h.openingAll ids) (h.openings ids) := by
  induction ids generalizing h with
  | nil => exact ⟨by simp [openings], by simp [openings], .nil⟩
  | cons id ids ih =>
    have hmore := ih (h.installed (freshFile id))
    have hnew : ∀ o ∈ (h.installed (freshFile id)).openings ids, h.openFiles.size + 1 ≤ o.openFile :=
      size_installed h (freshFile id) ▸ hmore.new
    refine ⟨?_, ?_, List.nodup_cons.2 ⟨?_, hmore.apart⟩⟩
    · exact List.forall_mem_cons.2 ⟨(h.refers_installed (freshFile id)).openingAll ids, hmore.refers⟩
    · exact List.forall_mem_cons.2 ⟨Nat.le_refl _, fun o ho => Nat.le_of_succ_le (hnew o ho)⟩
    · intro hmem
      obtain ⟨o, ho, heq⟩ := List.mem_map.1 hmem
      exact absurd (hnew o ho) (by rw [heq]; exact Nat.not_succ_le_self _)

theorem Ready.tail (hr : base.Ready host (o :: os)) : base.Ready host os :=
  ⟨fun o' ho' => hr.refers o' (List.mem_cons_of_mem _ ho'),
    fun o' ho' => hr.new o' (List.mem_cons_of_mem _ ho'), (List.nodup_cons.1 hr.apart).2⟩

/-- What happens to one open file does not concern the others. -/
theorem Ready.set (hr : base.Ready host (o :: os)) (file : OpenFile) :
    base.Ready { host with openFiles := host.openFiles.setIfInBounds o.openFile file } os where
  refers o' ho' := by
    have hne : o'.openFile ≠ o.openFile := fun heq =>
      (List.nodup_cons.1 hr.apart).1 (List.mem_map.2 ⟨o', ho', heq⟩)
    exact (hr.tail.refers o' ho').set_ne hne file
  new := hr.tail.new
  apart := hr.tail.apart

theorem Ready.output (hr : base.Ready host os) (sink : Sink) :
    base.Ready { host with output := sink } os :=
  ⟨fun o ho => ⟨(hr.refers o ho).number, (hr.refers o ho).file⟩, hr.new, hr.apart⟩

/-! ### One after the other -/

/-- A host after a path was opened to read it. -/
def afterOpening (h : Host) (path : Bytes) : Host :=
  ((Host.openFile path Command.forReading 0).exec h).2

/-- Paths are opened to read them, one after the other, and none is closed before the next
    one is opened. -/
inductive OpensAll : Host → List Bytes → Host → Prop
  | nothing (h : Host) : OpensAll h [] h
  | next {h h' : Host} {path : Bytes} {paths : List Bytes} : h.refusal? path = none →
    OpensAll (h.afterOpening path) paths h' → OpensAll h (path :: paths) h'

theorem afterOpening_of_sought {id : FileId} (hid : h.sought path = .ok id) :
    h.afterOpening path = h.installed (freshFile id) := by
  rw [afterOpening, exec_openFile, hid]

theorem files_installed (h : Host) (file : OpenFile) : (h.installed file).files = h.files := by
  rw [installed_eq]

/-- What was opened are the files that the paths lead to. -/
theorem OpensAll.exists_ids {files : List Bytes} (hopens : h.OpensAll files host) :
    (∀ path ∈ files, path.contains 0 = false ∧ Files.checkPath path = .ok ()) ∧
      ∃ ids : List FileId, files.map h.files.sought = ids.map .ok ∧ host = h.openingAll ids := by
  induction hopens with
  | nothing h => exact ⟨by simp, [], rfl, rfl⟩
  | @next h host path paths hpath hopens ih =>
    obtain ⟨hnul, id, hid⟩ := exists_sought hpath
    obtain ⟨-, hcheck, hfound⟩ := sought_cases hid
    rw [afterOpening_of_sought hid, files_installed] at ih
    obtain ⟨hpaths, ids, hids, rfl⟩ := ih
    exact ⟨List.forall_mem_cons.2 ⟨⟨hnul, hcheck⟩, hpaths⟩, id :: ids,
      by rw [List.map_cons, hfound, hids]; rfl, rfl⟩

/-- Each file that is opened takes a descriptor. -/
theorem OpensAll.room {files : List Bytes} (hopens : h.OpensAll files host) :
    host.room + files.length = h.room := by
  induction hopens with
  | nothing h => rfl
  | @next h host path paths hpath hopens ih =>
    obtain ⟨-, id, hid⟩ := exists_sought hpath
    rw [afterOpening_of_sought hid] at ih
    have htaken := room_installed (sought_cases hid).1 (freshFile id)
    rw [List.length_cons]
    omega

/-- So there are slots for what is opened. -/
theorem OpensAll.length_lt {files : List Bytes} (hopens : h.OpensAll files host) :
    files.length + 2 < Slots.capacity := by
  have hroom := hopens.room
  have hlimit := h.room_le_limit
  have hlt := h.limit.isLt
  have hcapacity : Slots.capacity = 2 ^ 32 := rfl
  omega

/-- Some paths can all be opened, or there is a first one that cannot. -/
theorem opensAll_or_refused (h : Host) (files : List Bytes) :
    (∃ host, h.OpensAll files host) ∨
      ∃ before path after fault host, files = before ++ path :: after ∧
        h.OpensAll before host ∧ host.refusal? path = some fault := by
  induction files generalizing h with
  | nil => exact .inl ⟨h, .nothing h⟩
  | cons path files ih =>
    rcases hpath : h.refusal? path with _ | fault
    · rcases ih (h.afterOpening path) with
        ⟨host, hopens⟩ | ⟨before, refused, after, fault, host, rfl, hopens, hfault⟩
      · exact .inl ⟨host, .next hpath hopens⟩
      · exact .inr ⟨path :: before, refused, after, fault, host, rfl, .next hpath hopens, hfault⟩
    · exact .inr ⟨[], path, files, fault, h, rfl, .nothing h, hpath⟩

end Host

namespace World.At

open Run

variable {w : World} {k : ContextId} {levels : List (Index × Forest Release)} {inner : Forest Release}
  {b : Index} {program : String} {base host host' : Host} {ran : List (Due Release)}
  {files : List Bytes} {path : Bytes} {ids : List FileId}

/-- The loop that opens files, where all of them can be opened. -/
theorem openFiles (h : w.At k ⟨levels, inner, some ⟨b, .message, 1⟩, program, host, ran⟩)
    (howes : base.Owes host inner.due)
    (hroom : (inner.indices ++ Forest.around levels).length + files.length ≤ Slots.capacity)
    (hopens : host.OpensAll files host') (hids : files.map host.files.sought = ids.map .ok) :
    ∃ inner' w', (files.mapM fun path => Run.openFile k path Command.forReading 0).exec w =
        (.ok ((host.openings ids).map (·.fd)), w') ∧
      w'.At k ⟨levels, inner', some ⟨b, .message, 1⟩, program, host', ran⟩ ∧
      base.Owes host' inner'.due ∧
      inner'.indices.length = inner.indices.length + files.length := by
  induction hopens generalizing w inner ids with
  | nothing host =>
    obtain rfl : ids = [] := by simpa using hids
    exact ⟨inner, w, rfl, h, howes, rfl⟩
  | @next host host' path files hpath hopens ih =>
    rcases ids with _ | ⟨id, ids⟩
    · cases hids
    obtain ⟨hfound, hrest⟩ := List.cons.inj hids
    obtain ⟨hnul, id', hid⟩ := Host.exists_sought hpath
    obtain rfl : id' = id := Except.ok.inj ((Host.sought_cases hid).2.2.symm.trans hfound)
    rw [Host.afterOpening_of_sought hid] at ih
    rw [List.length_cons] at hroom
    obtain ⟨i, w₁, hopen, h₁⟩ := h.openFile (by omega) hnul hid
    obtain ⟨inner', w', hexec, h', howes', hlength⟩ := ih h₁ (howes.installed i (Host.freshFile id'))
      (by simp only [Forest.indices, List.length_append, List.length_cons] at hroom ⊢; omega)
      (by rw [Host.files_installed]; exact hrest)
    refine ⟨inner', w', ?_, h', howes', ?_⟩
    · rw [List.mapM_cons, exec_bind_ok hopen, exec_bind_ok hexec]
      rfl
    · rw [hlength, Forest.indices, List.length_cons, List.length_cons]
      omega

/-- The loop that opens files, where one cannot be opened. -/
theorem openFiles_refused {before : List Bytes} (after : List Bytes) {fault : String}
    (h : w.At k ⟨levels, inner, some ⟨b, .message, 1⟩, program, host, ran⟩)
    (howes : base.Owes host inner.due)
    (hroom : (inner.indices ++ Forest.around levels).length + before.length < Slots.capacity)
    (hopens : host.OpensAll before host') (hfault : host'.refusal? path = some fault) :
    ∃ code inner' w', ((before ++ path :: after).mapM fun path =>
        Run.openFile k path Command.forReading 0).exec w =
        (.error (.failure ⟨code, some (openingText path ++ (": " ++ fault)), some program, 1⟩), w') ∧
      w'.At k ⟨levels, inner', some ⟨b, .message, 1⟩, program, host', ran⟩ ∧
      base.Owes host' inner'.due := by
  obtain ⟨-, ids, hids, -⟩ := hopens.exists_ids
  obtain ⟨inner₁, w₁, hbefore, h₁, howes₁, hlength⟩ :=
    h.openFiles howes (Nat.le_of_lt hroom) hopens hids
  obtain ⟨i, code, w₂, hopen, h₂⟩ := h₁.openFile_refused
    (by rw [List.length_append] at hroom ⊢; omega) hfault
  refine ⟨code, .record i none inner₁, w₂, ?_, h₂, howes₁⟩
  rw [List.mapM_append, exec_bind_ok hbefore, List.mapM_cons]
  exact exec_bind_error (exec_bind_error hopen)

end World.At

/-! ## Copying what they hold -/

/-- What a stream makes of some contents, each with the descriptor that it is read from: what
    it holds then, and what has stopped it. -/
def Sink.pour (sink : Sink) : List (Int × Option Bytes) → Sink × Option String
  | [] => (sink, none)
  | (fd, none) :: _ =>
    (sink, some ("read(" ++ toString fd ++ ")" ++ (": " ++ (IoError.os Errno.isDirectory).message)))
  | (_, some bytes) :: more =>
    match sink.takes bytes with
    | .ok sink => sink.pour more
    | .error e => (sink, some ("write(1)" ++ (": " ++ (IoError.os e).message)))

/-- What an open file is on, if that can be read. -/
def Host.contentOf? (h : Host) (id : FileId) : Option Bytes :=
  (h.files.node? id).bind (·.content?)

/-- The contents of what was opened. -/
def Host.contents (h : Host) (os : List Opening) : List (Int × Option Bytes) :=
  os.map fun o => (o.fd, h.contentOf? o.id)

theorem Host.contents_openings (h : Host) (ids : List FileId) : h.contents (h.openings ids) =
    ((h.openings ids).map fun o => (o.fd : Int)).zip (ids.map h.contentOf?) := by
  have hmap : (h.openings ids).map (fun o => h.contentOf? o.id) = ids.map h.contentOf? := by
    rw [← congrArg (List.map h.contentOf?) (h.ids_openings ids), List.map_map]
    rfl
  rw [← hmap, List.zip_map']
  rfl

/-- Copies what is left of a file. -/
def Run.copy (k : ContextId) (fd : Nat) : Run Unit := do
  writeAll k Command.standardOutput (← readToEnd k fd)

theorem Command.copyFiles_eq (k : ContextId) (files : List Bytes) : copyFiles k files =
    (files.mapM fun path => Run.openFile k path forReading 0) >>= fun fds => fds.forM (Run.copy k) :=
  rfl

namespace World.At

open Run

variable {w : World} {k : ContextId} {levels : List (Index × Forest Release)} {inner : Forest Release}
  {b : Index} {program : String} {base host : Host} {ran : List (Due Release)}

/-- The loop that copies what was opened. -/
theorem pour {os : List Opening}
    (h : w.At k ⟨levels, inner, some ⟨b, .message, 1⟩, program, host, ran⟩)
    (howes : base.Owes host inner.due) (ho : base.HasOutput) (hready : base.Ready host os)
    (hends : ∀ o ∈ os, ∃ node, base.files.node? o.id = some node ∧ node.Ends) :
    ∃ r host' w', ((os.map (·.fd)).forM (Run.copy k)).exec w = (r, w') ∧
      Invocation.Tells program r (host.output.pour (base.contents os)).2 ∧
      w'.At k ⟨levels, inner, some ⟨b, .message, 1⟩, program, host', ran⟩ ∧
      base.Owes host' inner.due ∧ host'.output = (host.output.pour (base.contents os)).1 := by
  induction os generalizing w host with
  | nil => exact ⟨.ok (), host, w, rfl, .returned, h, howes, rfl⟩
  | cons o os ih =>
    obtain ⟨⟨node, hnode, hend⟩, hends⟩ := List.forall_mem_cons.1 hends
    have hfd : (o.fd : Int) ≠ -1 := by omega
    have hr := hready.refers o (List.mem_cons_self ..)
    have hnode' : host.files.node? o.id = some node := by rw [howes.lends.files, hnode]
    have hcontents : base.contents (o :: os) = ((o.fd : Int), node.content?) :: base.contents os := by
      simp only [Host.contents, Host.contentOf?, List.map_cons, hnode, Option.bind_some]
    rw [hcontents]
    have hstep : ((List.map (·.fd) (o :: os)).forM (Run.copy k)).exec w =
        (Run.copy k o.fd >>= fun _ => (os.map (·.fd)).forM (Run.copy k)).exec w := rfl
    rw [hstep]
    rcases hcontent : node.content? with _ | content
    · obtain ⟨w', hread, h'⟩ := h.readToEnd_refused hfd hr hnode' hend hcontent
      exact ⟨_, host, w', exec_bind_error (exec_bind_error hread), .failed _ _, h', howes, rfl⟩
    · obtain ⟨file, w₁, hread, h₁⟩ := h.readToEnd hfd hr hnode' hend hcontent
      have howes₁ := howes.set (hready.new o (List.mem_cons_self ..)) file
      rw [Sink.pour]
      rcases htakes : host.output.takes content with e | sink
      · obtain ⟨w₂, hwrite, h₂⟩ := h₁.writeAll_refused (ho.lends howes₁.lends) htakes
        have hcopy : (Run.copy k o.fd).exec w = _ := (exec_bind_ok hread).trans hwrite
        exact ⟨_, _, w₂, exec_bind_error hcopy, .failed _ _, h₂, howes₁, rfl⟩
      · obtain ⟨w₂, hwrite, h₂⟩ := h₁.writeAll (ho.lends howes₁.lends) htakes
        obtain ⟨r, host', w', hexec, htells, h', howes', houtput⟩ :=
          ih h₂ (howes₁.output sink) ((hready.set file).output sink) hends
        have hcopy : (Run.copy k o.fd).exec w = _ := (exec_bind_ok hread).trans hwrite
        exact ⟨r, host', w', (exec_bind_ok hcopy).trans hexec, htells, h', howes', houtput⟩

end World.At

/-! ## The command -/

namespace Host

variable {h : Host} {files : List Bytes}

/-- What was opened holds what the paths lead to. -/
theorem contents_of_sought {ids : List FileId}
    (hpaths : ∀ path ∈ files, path.contains 0 = false ∧ Files.checkPath path = .ok ())
    (hids : files.map h.files.sought = ids.map .ok) (hends : ∀ path ∈ files, h.Ends path) :
    (∀ id ∈ ids, ∃ node, h.files.node? id = some node ∧ node.Ends) ∧
      ids.map h.contentOf? = files.map h.content? := by
  induction files generalizing ids with
  | nil =>
    obtain rfl : ids = [] := by simpa using hids
    exact ⟨by simp, rfl⟩
  | cons path files ih =>
    rcases ids with _ | ⟨id, ids⟩
    · cases hids
    obtain ⟨hid, hids⟩ := List.cons.inj hids
    obtain ⟨hend, hends⟩ := List.forall_mem_cons.1 hends
    obtain ⟨⟨-, hpath⟩, hpaths⟩ := List.forall_mem_cons.1 hpaths
    obtain ⟨node, hnode, hnodeEnds, hcontent⟩ := exists_node_of_sought hpath hid hend
    obtain ⟨hnodes, hmap⟩ := ih hpaths hids hends
    refine ⟨List.forall_mem_cons.2 ⟨⟨node, hnode, hnodeEnds⟩, hnodes⟩, ?_⟩
    rw [List.map_cons, List.map_cons, hmap, contentOf?, hnode, Option.bind_some, hcontent]

end Host

namespace Invocation

variable {inv : Invocation} {config : Config} {filter : LogFilter} {files before after : List Bytes}
  {path : Bytes} {fault : String} {host : Host}

/-- A file that cannot be opened, after others that can, is what the command ends with. -/
theorem endsWith_of_refusal
    (hargs : Request.ofArguments? inv.arguments = some (.command (.cat (before ++ path :: after))))
    (hset : inv.settings = .ok (config, filter))
    (hopens : inv.host.OpensAll before host) (hfault : host.refusal? path = some fault) :
    inv.EndsWith (some (Run.openingText path ++ (": " ++ fault))) inv.host.output := by
  have hlength := hopens.length_lt
  obtain ⟨-, ids, -, hhost⟩ := hopens.exists_ids
  refine endsWith_of_body hargs hset fun b w h => ?_
  obtain ⟨code, inner, w', hopen, h', howes⟩ := h.openFiles_refused after (Host.Owes.nothing inv.host)
    (by simpa [Forest.indices] using by omega) hopens hfault
  refine ⟨_, [], inner, _, _, _, w', ?_, .failed code _, h', howes, ?_⟩
  · rw [Command.execute, Command.copyFiles_eq]
    exact Run.exec_bind_error hopen
  · rw [hhost, Host.output_openingAll]

/-- Files that can all be opened are copied, up to the first that cannot be read or
    written. -/
theorem endsWith_pour
    (hargs : Request.ofArguments? inv.arguments = some (.command (.cat files)))
    (hset : inv.settings = .ok (config, filter)) (ho : inv.host.HasOutput)
    (hopens : inv.host.OpensAll files host) (hends : ∀ path ∈ files, inv.host.Ends path) :
    ∃ fds : List Int, fds.length = files.length ∧
      inv.EndsWith (inv.host.output.pour (fds.zip (files.map inv.host.content?))).2
        (inv.host.output.pour (fds.zip (files.map inv.host.content?))).1 := by
  have hslots := hopens.length_lt
  obtain ⟨hpaths, ids, hids, rfl⟩ := hopens.exists_ids
  obtain ⟨hnodes, hmap⟩ := Host.contents_of_sought hpaths hids hends
  have hlength : ids.length = files.length := by simpa using (congrArg List.length hids).symm
  refine ⟨(inv.host.openings ids).map fun o => (o.fd : Int),
    by rw [List.length_map, Host.length_openings, hlength], ?_⟩
  rw [← hmap, ← Host.contents_openings]
  refine endsWith_of_body hargs hset fun b w h => ?_
  obtain ⟨inner, w₁, hopen, h₁, howes, -⟩ := h.openFiles (Host.Owes.nothing inv.host)
    (by simpa [Forest.indices] using by omega) hopens hids
  obtain ⟨r, host, w', hpour, htells, h', howes', houtput⟩ := h₁.pour howes ho
    (Host.ready_openings inv.host ids) fun o hmem =>
      hnodes o.id (Host.ids_openings inv.host ids ▸ List.mem_map_of_mem hmem)
  rw [Host.output_openingAll] at htells houtput
  refine ⟨r, [], inner, _, host, _, w', ?_, htells, h', howes', houtput⟩
  rw [Command.execute, Command.copyFiles_eq, Run.exec_bind_ok hopen, hpour]

end Invocation

/-! ## All or nothing -/

theorem Host.Prints.hasOutput {h : Host} (hprints : h.Prints) : h.HasOutput := by
  obtain ⟨d, file, hd, hfile, hmay, htarget⟩ := hprints.opened
  exact ⟨d.openFile, file, ⟨by rw [hd]; rfl, hfile⟩, hmay, htarget⟩

theorem Sink.takes_of_working {sink : Sink} (hworking : sink.condition = .working) (bytes : Bytes) :
    sink.takes bytes = .ok { sink with content := sink.content ++ bytes } := by
  obtain ⟨condition, content⟩ := sink
  cases hworking
  rcases bytes with _ | ⟨byte, bytes⟩
  · rw [List.append_nil]
    rfl
  · rfl

/-- An output that keeps what is written takes all contents before the first that cannot be
    read, and nothing else stops it. -/
theorem Sink.pour_of_working {sink : Sink} (hworking : sink.condition = .working)
    (contents : List (Int × Option Bytes)) :
    (sink.pour contents).1.content = sink.content ++
        ((contents.map (·.2)).takeWhile (·.isSome)).flatMap (·.getD []) ∧
      ((sink.pour contents).2 = none ↔ ∀ c ∈ contents.map (·.2), c.isSome = true) := by
  induction contents generalizing sink with
  | nil => simp [pour]
  | cons c more ih =>
    obtain ⟨fd, _ | bytes⟩ := c
    · simp [pour]
    · have htakes := takes_of_working hworking bytes
      have hworking' : Sink.condition { sink with content := sink.content ++ bytes } = .working :=
        hworking
      obtain ⟨hcontent, hfault⟩ := ih hworking'
      rw [pour, htakes]
      dsimp only
      rw [hcontent, hfault]
      simp

/-- The command that copies files is all or nothing as far as opening them goes.  If a file
    cannot be opened while those before it are open, nothing is written, and the first such file
    is what the failure tells.  Otherwise the output gets the contents of the files in order, up
    to the first that cannot be read, and the command succeeds if there is none.  In any case no
    descriptor is left open.

    A terminal and a device that never ends have no contents to speak of.  The exit status after
    a failure is that of a panic if standard error does not take what is said. -/
theorem cat_all_or_nothing {inv : Invocation} {files : List Bytes} {config : Config}
    {filter : LogFilter} (hargs : Request.ofArguments? inv.arguments = some (.command (.cat files)))
    (hset : inv.settings = .ok (config, filter)) (hprints : inv.host.Prints)
    (hends : ∀ path ∈ files, inv.host.Ends path) :
    (∀ before path after fault host, files = before ++ path :: after →
      inv.host.OpensAll before host → host.refusal? path = some fault →
        inv.run.host.output = inv.host.output ∧
          (inv.host.error.condition = .working →
            inv.run.status = Invocation.failureStatus ∧
              inv.run.host.error.content = inv.host.error.content ++ Utf8.encode (inv.programName ++
                ": open(\"" ++ Path.display path ++ "\"): " ++ fault ++ "\n"))) ∧
    (∀ host, inv.host.OpensAll files host →
      inv.run.host.output.content = inv.host.output.content ++
          (files.takeWhile fun path => (inv.host.content? path).isSome).flatMap
            (fun path => (inv.host.content? path).getD []) ∧
        (inv.run.status = Invocation.successStatus ↔
          ∀ path ∈ files, (inv.host.content? path).isSome) ∧
        (inv.host.error.condition = .working → (∃ path ∈ files, inv.host.content? path = none) →
          inv.run.status = Invocation.failureStatus)) ∧
    ((∃ host, inv.host.OpensAll files host) ∨
      ∃ before path after fault host, files = before ++ path :: after ∧
        inv.host.OpensAll before host ∧ host.refusal? path = some fault) ∧
    ∀ fd, inv.run.host.descriptor? fd = inv.host.descriptor? fd := by
  have hrefused : ∀ before path after fault host, files = before ++ path :: after →
      inv.host.OpensAll before host → host.refusal? path = some fault →
        inv.EndsWith (some (Run.openingText path ++ (": " ++ fault))) inv.host.output := by
    rintro before path after fault host rfl hopens hfault
    exact Invocation.endsWith_of_refusal hargs hset hopens hfault
  have hcases := inv.host.opensAll_or_refused files
  refine ⟨fun before path after fault host hfiles hopens hfault => ?_, fun host hopens => ?_,
    hcases, ?_⟩
  · have hends := hrefused before path after fault host hfiles hopens hfault
    refine ⟨hends.output, fun hworking => ⟨?_, ?_⟩⟩
    · rw [hends.status, Invocation.faultStatus, if_pos hworking]
      rfl
    · rw [hends.error, Invocation.content_lastWords hworking]
      have hopening : ": open(\"" = ": " ++ "open(\"" := rfl
      have hclosing : "\"): " = "\")" ++ ": " := rfl
      simp only [Run.openingText, hopening, hclosing, String.append_assoc]
  · obtain ⟨fds, hlength, hends⟩ := Invocation.endsWith_pour hargs hset hprints.hasOutput hopens hends
    obtain ⟨hcontent, hfault⟩ :=
      Sink.pour_of_working hprints.working (fds.zip (files.map inv.host.content?))
    rw [List.map_snd_zip (by rw [List.length_map, hlength])] at hcontent hfault
    rw [List.forall_mem_map] at hfault
    rw [List.takeWhile_map, List.flatMap_map] at hcontent
    have hstatus := hends.status
    simp only [hfault] at hstatus
    refine ⟨(congrArg Sink.content hends.output).trans hcontent, ?_, fun hworking hunreadable => ?_⟩
    · rw [hstatus]
      split
      · exact iff_of_true rfl ‹_›
      · exact iff_of_false inv.faultStatus_ne ‹_›
    · obtain ⟨path, hmem, hnone⟩ := hunreadable
      have hnot : ¬ ∀ path ∈ files, (inv.host.content? path).isSome = true := fun hall => by
        have hsome := hall path hmem
        rw [hnone] at hsome
        cases hsome
      rw [hstatus, if_neg hnot, Invocation.faultStatus, if_pos hworking]
  · rcases hcases with ⟨host, hopens⟩ | ⟨before, path, after, fault, host, hfiles, hopens, hfault⟩
    · obtain ⟨fds, -, hends⟩ := Invocation.endsWith_pour hargs hset hprints.hasOutput hopens hends
      exact hends.descriptors
    · exact (hrefused before path after fault host hfiles hopens hfault).descriptors

theorem Host.ends_of_find {h : Host} {path : Bytes} (id : FileId) (node : FileNode)
    (hfind : h.files.find path = .ok id) (hnode : h.files.node? id = some node) (hends : node.Ends) :
    h.Ends path := by
  intro id' node' hfind' hnode'
  rw [hfind] at hfind'
  cases hfind'
  rw [hnode] at hnode'
  cases hnode'
  exact hends

/-- Where a path leads to nothing, nothing is without an end. -/
theorem Host.ends_of_error {h : Host} {path : Bytes} {e : Errno}
    (hfind : h.files.find path = .error e) : h.Ends path := by
  intro id node hfind'
  rw [hfind] at hfind'
  cases hfind'

/-- An invocation that copies files, where there is a file `f` and a directory `d`. -/
def copying (operands : List String) : Invocation where
  calledAs := Path.ofText "unwound"
  arguments := (("cat" :: operands).map Utf8.encode)
  setting? := fun _ => none
  host := .new ((Files.standard.addFile (Path.ofText "f") 0o644 (Utf8.encode "hi")).addDirectory
    (Path.ofText "d"))
  identity := "0001"
  time := "-"

/-- The same where there are only two descriptors left. -/
def crowded (operands : List String) : Invocation :=
  { copying operands with host := { (copying operands).host with limit := ⟨5, by decide⟩ } }

/-- The theorem above for a file before a directory and after it, for a file that is missing, and
    for a file that there is no descriptor for when it has been opened twice. -/
theorem cat_all_or_nothing_missing :
    (copying ["f", "f", "d", "f"]).run.host.output.content = Utf8.encode "hihi" ∧
      (copying ["f", "f", "d", "f"]).run.status = 1 ∧
      (copying ["d", "x", "f"]).run.host.output.content = [] ∧
      (copying ["d", "x", "f"]).run.host.error.content =
        Utf8.encode "unwound: open(\"x\"): No such file or directory (os error 2)\n" ∧
      (crowded ["f", "f", "f"]).run.host.output.content = [] ∧
      (crowded ["f", "f", "f"]).run.status = 1 ∧
      (crowded ["f", "f", "f"]).run.host.error.content =
        Utf8.encode "unwound: open(\"f\"): Too many open files (os error 24)\n" := by
  have hprints : ∀ operands, (copying operands).host.Prints := fun operands =>
    ⟨⟨⟨1, false⟩, ⟨.stream .output, StatusWord.ofAccess .writeOnly, 0, false⟩, rfl, rfl,
      by decide, rfl⟩, rfl⟩
  have hfile : ∀ operands, (copying operands).host.Ends (Path.ofText "f") := fun operands =>
    Host.ends_of_find 6 (.file 0o644 (Utf8.encode "hi")) rfl rfl
      (by show 2 ≤ Run.unlimited; decide)
  have hdirectory : ∀ operands, (copying operands).host.Ends (Path.ofText "d") := fun operands =>
    Host.ends_of_find 7 (.directory 0 []) rfl rfl trivial
  have hmissing : ∀ operands, (copying operands).host.Ends (Path.ofText "x") := fun operands =>
    Host.ends_of_error (e := Errno.noEntry) rfl
  obtain ⟨filter, hset⟩ := (copying ["f", "f", "d", "f"]).settings_of_unset fun _ => rfl
  obtain ⟨filter', hset'⟩ := (copying ["d", "x", "f"]).settings_of_unset fun _ => rfl
  obtain ⟨filter'', hset''⟩ := (crowded ["f", "f", "f"]).settings_of_unset fun _ => rfl
  have hargs : Request.ofArguments? (copying ["f", "f", "d", "f"]).arguments = some (.command
    (.cat [Path.ofText "f", Path.ofText "f", Path.ofText "d", Path.ofText "f"])) := by decide +kernel
  have hargs' : Request.ofArguments? (copying ["d", "x", "f"]).arguments = some (.command
    (.cat [Path.ofText "d", Path.ofText "x", Path.ofText "f"])) := by decide +kernel
  have hargs'' : Request.ofArguments? (crowded ["f", "f", "f"]).arguments = some (.command
    (.cat [Path.ofText "f", Path.ofText "f", Path.ofText "f"])) := by decide +kernel
  obtain ⟨-, hcopied, -⟩ := cat_all_or_nothing hargs hset (hprints _)
    (by simp only [List.forall_mem_cons, hfile, hdirectory]; simp)
  obtain ⟨hrefused, -⟩ := cat_all_or_nothing hargs' hset' (hprints _)
    (by simp only [List.forall_mem_cons, hfile, hdirectory, hmissing]; simp)
  obtain ⟨hrefused', -⟩ := cat_all_or_nothing hargs'' hset''
    ⟨(hprints ["f", "f", "f"]).opened, (hprints ["f", "f", "f"]).working⟩
    (List.forall_mem_cons.2 ⟨hfile [], List.forall_mem_cons.2 ⟨hfile [],
      List.forall_mem_singleton.2 (hfile [])⟩⟩)
  obtain ⟨hcontent, -, hstatus⟩ := hcopied _ (.next (by decide +kernel) (.next (by decide +kernel)
    (.next (by decide +kernel) (.next (by decide +kernel) (.nothing _)))))
  obtain ⟨hnothing, hsaid⟩ := hrefused [Path.ofText "d"] (Path.ofText "x") [Path.ofText "f"]
    "No such file or directory (os error 2)" _ rfl (.next (by decide +kernel) (.nothing _))
    (by decide +kernel)
  obtain ⟨hnothing', hsaid'⟩ := hrefused' [Path.ofText "f", Path.ofText "f"] (Path.ofText "f") []
    "Too many open files (os error 24)" _ rfl
    (.next (by decide +kernel) (.next (by decide +kernel) (.nothing _))) (by decide +kernel)
  refine ⟨hcontent.trans (by decide +kernel), ?_, ?_, ?_, ?_, (hsaid' rfl).1, ?_⟩
  · exact hstatus rfl ⟨Path.ofText "d", by simp, rfl⟩
  · rw [hnothing]
    rfl
  · exact (hsaid rfl).2.trans (by decide +kernel)
  · rw [hnothing']
    rfl
  · exact (hsaid' rfl).2.trans (by decide +kernel)

end ScopedResources
