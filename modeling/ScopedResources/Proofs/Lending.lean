/-
  Descriptors that a host has lent.

  While a program holds descriptors, its host is the one that it began with, beside these:
  the files are the same, and every other number means what it meant.  Opening, duplicating
  and closing change what is held, reading and writing do not.

  * `Host.sought`: what opening a path only to read it comes to, without a change to
    anything; `Host.exec_openFile`.
  * `Host.Lends`: a host that has lent some descriptors; `Lends.lend`, `Lends.installed`,
    `Lends.closed`, `Lends.closes`.
  * `Host.Refers`: the open file that a descriptor refers to.
  * `Host.exec_read_file`, `Host.exec_read_directory`, `Host.exec_write_output`: what the
    calls do that a command makes.
-/
import ScopedResources.Command.Execute
import ScopedResources.Proofs.Custody
import ScopedResources.Proofs.Guards
import ScopedResources.Proofs.Scene

namespace ScopedResources

/-- A release that gives back a descriptor, or gives up a text or a block. -/
def Release.Closing : Release → Prop
  | .close _ | .forget _ => True
  | .note _ _ | .dropContext _ _ | .restoreName _ | .leaveLock _ => False

/-! ## Opening to read -/

/-- Whether the file with a number may be opened only to read it; and if not, the error. -/
def Files.checkReadable (fs : Files) (id : FileId) (asDirectory : Bool) : Except Errno Unit :=
  match fs.node? id with
  | none => .error Errno.noEntry
  | some (.directory _ _) => .ok ()
  | some (.file mode _) =>
    if asDirectory then .error Errno.notDirectory
    else if isReadable mode then .ok ()
    else .error Errno.permissionDenied
  | some (.device _) | some (.terminal _) =>
    if asDirectory then .error Errno.notDirectory else .ok ()

/-- What opening a path only to read it comes to: the file that is found, or the error. -/
def Files.sought (fs : Files) (path : Bytes) : Except Errno FileId := do
  match ← fs.locate path with
  | .bare id =>
    fs.checkReadable id true
    return id
  | .entry directory name =>
    let id ← fs.step directory name
    fs.checkReadable id (path.getLast? = some Path.slash)
    return id

namespace Host

variable {α : Type} {h base host : Host} {fd : Int} {n m : Nat} {held rest : List Int}
  {file file' : OpenFile}

/-- What opening a path only to read it comes to on a host: the path itself is looked at
    first, then whether there is a descriptor for it. -/
def sought (h : Host) (path : Bytes) : Except Errno FileId := do
  Files.checkPath path
  if h.exhausted then throw Errno.tooManyFiles
  h.files.sought path

/-- An open file from which nothing has been read yet. -/
def freshFile (id : FileId) : OpenFile :=
  ⟨.file id, Command.forReading.status, 0, false⟩

theorem mayRead_freshFile (id : FileId) : (freshFile id).status.access.mayRead = true := by
  show Command.forReading.status.access.mayRead = true
  decide

theorem exec_lift (x : Except Errno α) (h : Host) : (liftM x : Call α).exec h = (x, h) := by
  cases x <;> rfl

theorem exec_openExisting (id : FileId) (asDirectory : Bool) (h : Host) :
    (openExisting id Command.forReading asDirectory).exec h =
      (h.files.checkReadable id asDirectory, h) := by
  rw [openExisting, exec_get_bind, Files.checkReadable]
  rcases h.files.node? id with _ | ⟨mode, content⟩ | _ | _ | _
  · rfl
  · cases asDirectory
    · have hpermitted : Command.forReading.access.isPermitted false mode = isReadable mode := by
        simp [Command.forReading, Access.isPermitted, Access.asksToRead, Access.asksToWrite]
      have htruncate : Command.forReading.truncate = false := rfl
      dsimp only
      rw [htruncate, hpermitted]
      rcases isReadable mode <;> rfl
    · rfl
  · rfl
  · cases asDirectory <;> rfl
  · cases asDirectory <;> rfl

/-- Looking for a file to read changes nothing. -/
theorem exec_locate (path : Bytes) (mode : Nat) (h : Host) :
    (locate path Command.forReading mode).exec h = (h.files.sought path, h) := by
  rw [locate, exec_get_bind]
  dsimp only
  rw [exec_bind, exec_lift, Files.sought]
  rcases h.files.locate path with e | ⟨directory, name⟩ | id
  · rfl
  · have hcreate : ∀ c : Bool, ¬ (Command.forReading.create && c) = true := fun c => by
      simp [Command.forReading]
    have hcreate' : ∀ p : Prop, ¬ (p ∧ Command.forReading.create = true) := fun p => by
      simp [Command.forReading]
    dsimp only
    rw [if_neg (hcreate _)]
    rcases hstep : h.files.step directory name with e | id
    · dsimp only
      rw [if_neg (hcreate' _)]
      simp only [bind, Except.bind, hstep]
      rfl
    · dsimp only
      rw [if_neg (hcreate _), exec_bind, exec_openExisting,
        show Command.forReading.directory = false from rfl, Bool.or_false]
      simp only [bind, Except.bind, hstep]
      rcases h.files.checkReadable id _ <;> rfl
  · show Call.exec (openExisting id Command.forReading true >>= fun _ => pure id) h = _
    rw [exec_bind, exec_openExisting]
    simp only [bind, Except.bind]
    rcases h.files.checkReadable id true <;> rfl

theorem exec_openFile (path : Bytes) (mode : Nat) (h : Host) :
    (openFile path Command.forReading mode).exec h =
      match h.sought path with
      | .ok id => (.ok h.freeNumber, h.installed (freshFile id))
      | .error e => (.error e, h) := by
  show Call.exec (do
    Files.checkPath path
    if (← get).exhausted then throw Errno.tooManyFiles
    let id ← locate path Command.forReading mode
    install ⟨.file id, Command.forReading.status, 0, false⟩ true) h = _
  rw [sought, exec_bind, exec_lift]
  rcases Files.checkPath path with e | ⟨⟩
  · rfl
  dsimp only
  rw [exec_get_bind]
  by_cases hx : h.exhausted = true
  · rw [if_pos hx]
    simp only [bind, Except.bind, if_pos hx]
    rfl
  · rw [if_neg hx]
    simp only [bind, Except.bind, if_neg hx]
    show Call.exec (locate path Command.forReading mode >>= fun id =>
      install (freshFile id) true) h = _
    rw [exec_bind, exec_locate]
    rcases h.files.sought path with e | id
    · rfl
    · dsimp only
      rw [exec_install, if_neg hx]
      rfl

/-! ## What a descriptor refers to -/

/-- A descriptor refers to the open file `file`, which has the number `n`. -/
structure Refers (h : Host) (fd : Int) (n : Nat) (file : OpenFile) : Prop where
  number : (h.descriptor? fd).map (·.openFile) = some n
  file : h.openFiles[n]? = some file

theorem Refers.isOpen (hr : h.Refers fd n file) : h.isOpen fd = true := by
  obtain ⟨d, hd, -⟩ := Option.map_eq_some_iff.1 hr.number
  rw [Host.isOpen, hd]
  rfl

theorem Refers.lt_size (hr : h.Refers fd n file) : n < h.openFiles.size :=
  (Array.getElem?_eq_some_iff.1 hr.file).1

theorem exec_opened_of_refers (hr : h.Refers fd n file) : (opened fd).exec h = (.ok (n, file), h) := by
  obtain ⟨d, hd, rfl⟩ := Option.map_eq_some_iff.1 hr.number
  rw [opened, exec_get_bind, hd]
  dsimp only
  rw [hr.file]
  rfl

theorem exec_status (hr : h.Refers fd n file) : (status fd).exec h = (.ok file.status, h) := by
  rw [status, exec_bind, exec_opened_of_refers hr]
  rfl

theorem place_eq (h : Host) (number : Nat) (d : Descriptor) :
    h.place number d = { h with descriptors := (h.place number d).descriptors } := by
  unfold place
  split <;> rfl

theorem descriptor?_place_ne (h : Host) {number : Nat} (d : Descriptor) {n : Int}
    (hle : number ≤ h.descriptors.size) (hne : n ≠ number) :
    (h.place number d).descriptor? n = h.descriptor? n := by
  unfold descriptor?
  by_cases h0 : 0 ≤ n
  · rw [if_pos h0, if_pos h0, place]
    split
    · rw [Array.getElem?_setIfInBounds_ne (by omega)]
    · rw [Array.getElem?_push, if_neg (by omega)]
  · rw [if_neg h0, if_neg h0]

theorem descriptor?_closed (h : Host) {fd : Int} (ho : h.isOpen fd = true) (n : Int) :
    (h.closed fd).descriptor? n = if n = fd then none else h.descriptor? n := by
  have hfd := nonneg_of_isOpen ho
  unfold descriptor? closed
  by_cases h0 : 0 ≤ n
  · rw [if_pos h0, if_pos h0]
    dsimp only
    by_cases hn : n = fd
    · rw [if_pos hn, hn, Array.getElem?_setIfInBounds_self_of_lt (lt_size_of_isOpen ho)]
      rfl
    · rw [if_neg hn, Array.getElem?_setIfInBounds_ne (by omega)]
  · rw [if_neg h0, if_neg (by omega), if_neg h0]

/-- A descriptor refers to what it did after another one was given out. -/
theorem Refers.place (hr : h.Refers fd n file) (d : Descriptor) :
    (h.place h.freeNumber d).Refers fd n file where
  number := by
    rw [descriptor?_place_ne h d h.freeNumber_le, hr.number]
    rintro rfl
    exact h.not_isOpen_freeNumber hr.isOpen
  file := by rw [openFiles_place, hr.file]

theorem Refers.push (hr : h.Refers fd n file) (file' : OpenFile) :
    { h with openFiles := h.openFiles.push file' }.Refers fd n file where
  number := hr.number
  file := by
    dsimp only
    rw [Array.getElem?_push, if_neg (Nat.ne_of_lt hr.lt_size), hr.file]

theorem Refers.set_ne (hr : h.Refers fd n file) (hne : n ≠ m) (file' : OpenFile) :
    { h with openFiles := h.openFiles.setIfInBounds m file' }.Refers fd n file where
  number := hr.number
  file := by
    dsimp only
    rw [Array.getElem?_setIfInBounds_ne (Ne.symm hne), hr.file]

theorem Refers.set (hr : h.Refers fd n file) (file' : OpenFile) :
    { h with openFiles := h.openFiles.setIfInBounds n file' }.Refers fd n file' where
  number := hr.number
  file := Array.getElem?_setIfInBounds_self_of_lt hr.lt_size

theorem Refers.set_self (hr : h.Refers fd n file) :
    { h with openFiles := h.openFiles.setIfInBounds n file } = h := by
  obtain ⟨hlt, rfl⟩ := Array.getElem?_eq_some_iff.1 hr.file
  rw [Array.setIfInBounds, dif_pos hlt, Array.set_getElem_self]

theorem Refers.closed (hr : h.Refers fd n file) {other : Int} (hne : fd ≠ other)
    (ho : h.isOpen other = true) : (h.closed other).Refers fd n file where
  number := by rw [descriptor?_closed h ho, if_neg hne, hr.number]
  file := hr.file

theorem refers_freeNumber {number : Nat} (hfile : h.openFiles[number]? = some file)
    (closeOnExec : Bool) :
    (h.place h.freeNumber ⟨number, closeOnExec⟩).Refers h.freeNumber number file where
  number := by
    rw [descriptor?_place_freeNumber]
    rfl
  file := by rw [openFiles_place, hfile]

theorem refers_installed (h : Host) (file : OpenFile) :
    (h.installed file).Refers h.freeNumber h.openFiles.size file :=
  refers_freeNumber (h := { h with openFiles := h.openFiles.push file }) Array.getElem?_push_size true

theorem Refers.installed (hr : h.Refers fd n file) (file' : OpenFile) :
    (h.installed file').Refers fd n file :=
  (hr.push file').place _

/-- Nothing but the open files and the descriptors changes. -/
theorem installed_eq (h : Host) (file : OpenFile) : h.installed file =
    { h with openFiles := h.openFiles.push file, descriptors := (h.installed file).descriptors } :=
  place_eq _ _ _

/-! ## What is lent -/

/-- A host that has lent some descriptors, and otherwise is what it was before, apart from
    its pipes and from what has been written to the output. -/
structure Lends (base host : Host) (held : List Int) : Prop where
  files : host.files = base.files
  error : host.error = base.error
  limit : host.limit = base.limit
  nodup : held.Nodup
  isOpen : ∀ fd ∈ held, host.isOpen fd = true
  free : ∀ fd ∈ held, base.descriptor? fd = none
  other : ∀ n, n ∉ held → host.descriptor? n = base.descriptor? n
  size : base.openFiles.size ≤ host.openFiles.size
  openFiles : ∀ n < base.openFiles.size, host.openFiles[n]? = base.openFiles[n]?

theorem lends_nothing (h : Host) : h.Lends h [] :=
  ⟨rfl, rfl, rfl, .nil, by simp, by simp, fun _ _ => rfl, Nat.le_refl _, fun _ _ => rfl⟩

namespace Lends

/-- The order in which descriptors are held does not matter. -/
theorem perm (hl : base.Lends host held) (hp : held.Perm rest) : base.Lends host rest :=
  { hl with
    nodup := hp.nodup_iff.1 hl.nodup
    isOpen := fun fd hfd => hl.isOpen fd (hp.mem_iff.2 hfd)
    free := fun fd hfd => hl.free fd (hp.mem_iff.2 hfd)
    other := fun n hn => hl.other n fun hmem => hn (hp.mem_iff.1 hmem) }

/-- One more descriptor is lent. -/
theorem lend (hl : base.Lends host held) (d : Descriptor) :
    base.Lends (host.place host.freeNumber d) (host.freeNumber :: held) := by
  have hfree : (host.freeNumber : Int) ∉ held := fun hmem =>
    host.not_isOpen_freeNumber (hl.isOpen _ hmem)
  have hnone : host.descriptor? host.freeNumber = none := by
    have hclosed := host.not_isOpen_freeNumber
    rwa [Host.isOpen, Bool.not_eq_true, Option.isSome_eq_false_iff, Option.isNone_iff_eq_none]
      at hclosed
  refine ⟨?_, ?_, ?_, List.nodup_cons.2 ⟨hfree, hl.nodup⟩, ?_, ?_, ?_, ?_, ?_⟩
  · rw [place_eq]; exact hl.files
  · rw [place_eq]; exact hl.error
  · rw [place_eq]; exact hl.limit
  · intro fd hfd
    rw [isOpen_place_iff _ _ host.freeNumber_le]
    rcases List.mem_cons.1 hfd with rfl | hfd
    · exact .inr rfl
    · exact .inl (hl.isOpen fd hfd)
  · intro fd hfd
    rcases List.mem_cons.1 hfd with rfl | hfd
    · rw [← hl.other _ hfree, hnone]
    · exact hl.free fd hfd
  · intro n hn
    rw [List.mem_cons, not_or] at hn
    rw [descriptor?_place_ne _ _ host.freeNumber_le hn.1, hl.other n hn.2]
  · rw [openFiles_place]; exact hl.size
  · rw [openFiles_place]; exact hl.openFiles

/-- An open file is added. -/
theorem push (hl : base.Lends host held) (file : OpenFile) :
    base.Lends { host with openFiles := host.openFiles.push file } held :=
  { hl with
    size := by
      rw [Array.size_push]
      exact Nat.le_succ_of_le hl.size
    openFiles := fun n hn => by
      rw [Array.getElem?_push, if_neg (Nat.ne_of_lt (Nat.lt_of_lt_of_le hn hl.size)),
        hl.openFiles n hn] }

theorem installed (hl : base.Lends host held) (file : OpenFile) :
    base.Lends (host.installed file) (host.freeNumber :: held) :=
  (hl.push file).lend ⟨host.openFiles.size, true⟩

/-- An open file changes that was not there before. -/
theorem set (hl : base.Lends host held) (hn : base.openFiles.size ≤ n) (file : OpenFile) :
    base.Lends { host with openFiles := host.openFiles.setIfInBounds n file } held :=
  { hl with
    size := by
      rw [Array.size_setIfInBounds]
      exact hl.size
    openFiles := fun m hm => by
      rw [Array.getElem?_setIfInBounds_ne (by omega), hl.openFiles m hm] }

theorem output (hl : base.Lends host held) (sink : Sink) :
    base.Lends { host with output := sink } held :=
  { hl with }

theorem pipes (hl : base.Lends host held) (pipes : Array Pipe) :
    base.Lends { host with pipes } held :=
  { hl with }

/-- A descriptor is given back. -/
theorem closed (hl : base.Lends host (fd :: held)) : base.Lends (host.closed fd) held := by
  have hopen := hl.isOpen fd (List.mem_cons_self ..)
  obtain ⟨hfd, hnodup⟩ := List.nodup_cons.1 hl.nodup
  refine { hl with
    nodup := hnodup
    isOpen := fun n hn => ?_
    free := fun n hn => hl.free n (List.mem_cons_of_mem _ hn)
    other := fun n hn => ?_ }
  · have hne : n ≠ fd := fun he => hfd (he ▸ hn)
    rw [Host.isOpen, descriptor?_closed _ hopen, if_neg hne]
    exact hl.isOpen n (List.mem_cons_of_mem _ hn)
  · rw [descriptor?_closed _ hopen]
    split
    · rename_i hne
      rw [hne, hl.free fd (List.mem_cons_self ..)]
    · rename_i hne
      exact hl.other n (List.not_mem_cons_of_ne_of_not_mem hne hn)

end Lends

/-- Releases close the descriptors that they are for; those that are held besides stay. -/
theorem Lends.closes {releases : List Release} (hclosing : ∀ r ∈ releases, r.Closing) :
    ∀ {host : Host} {held : List Int}, base.Lends host held →
      held.Perm (releases.filterMap (·.descriptor?) ++ rest) →
        ∃ host', host.Closes releases host' ∧ base.Lends host' rest ∧
          host'.output = host.output ∧ host'.pipes = host.pipes := by
  induction releases with
  | nil =>
    intro host held hl hp
    exact ⟨host, .nil host, hl.perm hp, rfl, rfl⟩
  | cons r releases ih =>
    intro host held hl hp
    obtain ⟨hr, hmore⟩ := List.forall_mem_cons.1 hclosing
    cases r with
    | close fd =>
      have hl := hl.perm hp
      obtain ⟨host', hcloses, hl', houtput, hpipes⟩ := ih hmore hl.closed .rfl
      exact ⟨host', .close (hl.isOpen fd (List.mem_cons_self ..)) hcloses, hl', houtput, hpipes⟩
    | forget p =>
      obtain ⟨host', hcloses, hl', hsame⟩ := ih hmore hl hp
      exact ⟨host', .forget p hcloses, hl', hsame⟩
    | _ => exact hr.elim

/-! ## Reading and writing -/

/-- A host after some bytes were read from an open file. -/
def advanced (h : Host) (n : Nat) (file : OpenFile) (count : Nat) : Host :=
  { h with openFiles := h.openFiles.setIfInBounds n { file with offset := file.offset + count } }

/-- Reading a file goes on from where the last read ended. -/
theorem exec_read_file {id : FileId} {mode : Nat} {content : Bytes} (hr : h.Refers fd n file)
    (hmay : file.status.access.mayRead = true) (htarget : file.target = .file id)
    (hnode : h.files.node? id = some (.file mode content)) (limit : Nat) :
    (read fd limit).exec h = (.ok ((content.drop file.offset).take limit),
      h.advanced n file ((content.drop file.offset).take limit).length) := by
  rw [read, exec_bind, exec_opened_of_refers hr]
  dsimp only
  rw [if_neg (by rw [hmay]; decide), exec_get_bind, htarget]
  dsimp only
  rw [hnode, advanced, htarget]
  rfl

theorem exec_read_directory {id parent : FileId} {entries : List (Bytes × FileId)}
    (hr : h.Refers fd n file) (hmay : file.status.access.mayRead = true)
    (htarget : file.target = .file id) (hnode : h.files.node? id = some (.directory parent entries))
    (limit : Nat) : (read fd limit).exec h = (.error Errno.isDirectory, h) := by
  rw [read, exec_bind, exec_opened_of_refers hr]
  dsimp only
  rw [if_neg (by rw [hmay]; decide), exec_get_bind, htarget]
  dsimp only
  rw [hnode]
  rfl

theorem exec_read_null {id : FileId} (hr : h.Refers fd n file)
    (hmay : file.status.access.mayRead = true) (htarget : file.target = .file id)
    (hnode : h.files.node? id = some (.device .null)) (limit : Nat) :
    (read fd limit).exec h = (.ok [], h) := by
  rw [read, exec_bind, exec_opened_of_refers hr]
  dsimp only
  rw [if_neg (by rw [hmay]; decide), exec_get_bind, htarget]
  dsimp only
  rw [hnode]
  rfl

/-- Standard output is open on the output of the process, whatever becomes of what is
    written to it. -/
def HasOutput (h : Host) : Prop :=
  ∃ n file, h.Refers 1 n file ∧ file.status.access.mayWrite = true ∧ file.target = .stream .output

theorem exec_write_output (ho : h.HasOutput) (bytes : Bytes) :
    (write 1 bytes).exec h =
      match h.output.write bytes with
      | .ok sink => (.ok bytes.length, { h with output := sink })
      | .error e => (.error e, h) := by
  obtain ⟨n, file, hr, hmay, htarget⟩ := ho
  rw [write, exec_bind, exec_opened_of_refers hr]
  dsimp only
  rw [if_neg (by rw [hmay]; decide), exec_get_bind, htarget]
  dsimp only
  rcases h.output.write bytes with e | sink <;> rfl

/-- Lending descriptors does not take away the output. -/
theorem HasOutput.lends (ho : base.HasOutput) (hl : base.Lends host held) : host.HasOutput := by
  obtain ⟨n, file, hr, hmay, htarget⟩ := ho
  have hheld : (1 : Int) ∉ held := fun hmem => by
    have hnumber := hr.number
    rw [hl.free 1 hmem] at hnumber
    cases hnumber
  refine ⟨n, file, ⟨by rw [hl.other 1 hheld, hr.number], ?_⟩, hmay, htarget⟩
  rw [hl.openFiles n hr.lt_size, hr.file]

end Host

end ScopedResources
