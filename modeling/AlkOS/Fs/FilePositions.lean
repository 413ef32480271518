import AlkOS.Fs.FileLifetimes

/-!
# Open flags and file positions

What `Open`, `Write` and `Seek` owe to the flags of a descriptor and to the size of its
file. Nothing updates the size in the record of a file, so a call does what it owes
exactly if the file is empty or its size is not asked for.
-/

namespace AlkOS.Fs.FdManager

open Kernel Containers Vfs Relation Function OpenMode
open PooledHashMap (run_deref_eq_ok run_deref run_update_eq_ok run_update heap_put heap_add)

variable {s s' : FdManager} {build : Build} {a e pid fd idx : ℕ} {file : File}
  {entry : OpenFileEntry} {path : Path} {flags : OpenMode} {handle : FileHandle} {isAppend : Bool}
  {rest : List ℕ} {d : ℤ} {buffer : List UInt8} {whence : FdSeek} {writable : Path → Prop}

@[grind ←]
theorem preserves_onFiles_deref : Preserves Pooled (onFiles (PooledHashMap.deref a)) := by
  apply Preserves.of_eq
  intro s value s' returned
  obtain ⟨files, ran, rfl⟩ := run_zoom_eq_ok returned
  rw [(run_deref_eq_ok ran).2]

@[grind ←]
theorem preserves_onEntries_deref : Preserves Pooled (onEntries (PooledHashMap.deref e)) := by
  apply Preserves.of_eq
  intro s value s' returned
  obtain ⟨entries, ran, rfl⟩ := run_zoom_eq_ok returned
  rw [(run_deref_eq_ok ran).2]

theorem preserves_offset {offset : OpenFileEntry → ℕ} :
    Preserves Pooled (onEntries (PooledHashMap.update e fun entry =>
      { entry with offset := offset entry })) := by
  intro s value s' pooled returned
  obtain ⟨entries, ran, rfl⟩ := run_zoom_eq_ok returned
  obtain ⟨entry, known, rfl⟩ := run_update_eq_ok ran
  exact pooled.with_offset known _

@[grind ←]
theorem preserves_addRefEntry : Preserves Pooled (addRefEntry e) := by
  intro s value s' pooled returned
  obtain ⟨entries, ran, rfl⟩ := run_zoom_eq_ok returned
  obtain ⟨entry, known, rfl⟩ := run_update_eq_ok ran
  exact (pooled.run_addRefEntry known).2

@[grind ←]
theorem preserves_releaseFile : Preserves Pooled (releaseFile build a) := by
  intro s value s' pooled returned
  obtain ⟨file, middle, read, _⟩ := run_bind_eq_ok returned
  obtain ⟨files, ran, _⟩ := run_zoom_eq_ok read
  obtain ⟨released, kept⟩ := pooled.run_releaseFile (run_deref_eq_ok ran).1
  cases released.symm.trans returned
  exact kept

theorem preserves_destroyHandle : Preserves Pooled (destroyHandle build handle) := by
  cases handle with
  | null => exact .pure _
  | file a => exact preserves_releaseFile
  | pipe => exact .pure _

@[grind ←]
theorem preserves_releaseEntry : Preserves Pooled (releaseEntry build e) := by
  intro s value s' pooled returned
  obtain ⟨entry, middle, read, _⟩ := run_bind_eq_ok returned
  obtain ⟨entries, ran, _⟩ := run_zoom_eq_ok read
  have known := (run_deref_eq_ok ran).1
  have kept := pooled.dropEntry known
  rw [pooled.run_releaseEntry known] at returned
  split at returned
  · exact preserves_destroyHandle _ _ _ kept returned
  · cases returned
    exact kept

/-- Files in use are found. -/
theorem exists_find (pooled : s.Pooled) (inUse : s.InUse path) :
    ∃ a, find s.files path = some a := by
  obtain ⟨a, file, known, same⟩ := inUse
  have slot := pooled.files.slot a file known
  have inside := (pooled.files.sound.inside _ _ slot).1
  have fits : isFileOf s.files path file.poolIdx = true := by
    simp [isFileOf, slot, known, samePath, same, (pooled.files.good a file known).1]
  cases here : (List.range kMaxActiveFiles).find? (isFileOf s.files path) with
  | none => exact absurd fits (List.find?_eq_none.mp here _ (List.mem_range.mpr inside))
  | some i =>
    have fits := List.find?_some here
    unfold isFileOf at fits
    cases taken : s.files.map i with
    | none => simp [taken] at fits
    | some b => exact ⟨b, by rw [find, here]; exact taken⟩

/-- A file is found or made if the path is named and there is room for it. -/
theorem Pooled.run_getOrCreate (build : Build) (path : Path) (pooled : s.Pooled) :
    (∃ error, (getOrCreate build path).run s = .ok (.error error) s ∧
      ¬ (path.isEmpty = false ∧ (s.InUse path ∨ s.files.pool ≠ []))) ∨
    ∃ a file files, (getOrCreate build path).run s = .ok (.ok a) { s with files := files } ∧
      Pooled { s with files := files } ∧ files.heap a = some file ∧
      path.isEmpty = false ∧ (s.InUse path ∨ s.files.pool ≠ []) := by
  cases named : path.isEmpty with
  | true => exact .inl ⟨_, run_getOrCreate_unnamed named, nofun⟩
  | false =>
    cases found : find s.files path with
    | some a =>
      obtain ⟨file, known, same⟩ := find_eq_some found pooled.files.sound
      exact .inr ⟨a, file, s.files, run_getOrCreate_found named found, pooled, known, rfl,
        .inl ⟨a, file, known, same⟩⟩
    | none =>
      cases pool : s.files.pool with
      | nil =>
        refine .inl ⟨_, run_getOrCreate_full named found pool, fun ⟨_, free⟩ => ?_⟩
        rcases free with inUse | room
        · obtain ⟨a, taken⟩ := exists_find pooled inUse
          exact nomatch found.symm.trans taken
        · exact room rfl
      | cons idx rest =>
        obtain ⟨made, kept⟩ := pooled.run_getOrCreate_new named found pool
        exact .inr ⟨_, _, _, made, kept, (congrFun (heap_add ..) _).trans
          (update_self ..), rfl, .inr (List.cons_ne_nil _ _)⟩

@[grind ←]
theorem preserves_getOrCreate : Preserves Pooled (getOrCreate build path) := by
  intro s value s' pooled returned
  rcases pooled.run_getOrCreate build path with ⟨_, ran, _⟩ | ⟨_, _, _, ran, kept, _⟩
  · cases ran.symm.trans returned
    exact pooled
  · cases ran.symm.trans returned
    exact kept

/-- An entry is made only for a file in use. -/
theorem ready_of_newEntry {result : Except FdError ℕ} (pooled : s.Pooled)
    (top : s.entries.pool = idx :: rest)
    (returned : (newEntry build (.file a) flags isAppend).run s = .ok result s') :
    ∃ file, s.files.heap a = some file := by
  have inside := (pooled.entries.sound.of_top top).1
  unfold newEntry at returned
  rw [run_bind (run_onEntries (PooledHashMap.run_allocate top)),
    run_bind (run_onEntries (PooledHashMap.run_get inside))] at returned
  simp only [PooledHashMap.map_taken] at returned
  obtain ⟨_, _, added, _⟩ := run_bind_eq_ok returned
  obtain ⟨files, ran, _⟩ := run_zoom_eq_ok added
  obtain ⟨file, known, _⟩ := run_update_eq_ok ran
  exact ⟨file, known⟩

/-- A new entry gets its slot. -/
@[grind ←]
theorem preserves_newEntry (append : isAppend = flags.hasMode kAppend) :
    Preserves Pooled (newEntry build handle flags isAppend) := by
  intro s value s' pooled returned
  cases pool : s.entries.pool with
  | nil =>
    cases (Pooled.run_newEntry_full pool).symm.trans returned
    exact pooled
  | cons idx rest =>
    cases handle with
    | null =>
      cases (pooled.run_newEntry pool default (by simp)).symm.trans returned
      exact pooled.addEntry pool append
    | pipe =>
      cases (pooled.run_newEntry pool default (by simp)).symm.trans returned
      exact pooled.addEntry pool append
    | file a =>
      obtain ⟨file, known⟩ := ready_of_newEntry pooled pool returned
      cases (pooled.run_newEntry pool file
        fun b same => FileHandle.file.inj same ▸ known).symm.trans returned
      exact (pooled.run_addRefFile known).2.addEntry pool append

/-- A change outside of both pools. -/
@[grind ←]
theorem preserves_modify {change : FdManager → FdManager}
    (files : (fun s => (change s).files) = FdManager.files)
    (entries : (fun s => (change s).entries) = FdManager.entries) :
    Preserves Pooled (modify change) := by
  refine .modify fun s pooled => ⟨?_, ?_⟩
  · rw [show (change s).files = s.files from congrFun files s]
    exact pooled.files
  · rw [show (change s).entries = s.entries from congrFun entries s]
    exact pooled.entries

@[grind ←]
theorem preserves_allocateFd : Preserves Pooled (allocateFd build pid e) := by
  unfold allocateFd setSlot
  grind

@[grind ←]
theorem preserves_openOn : Preserves Pooled (openOn build pid a flags) := by
  unfold openOn openFile
  grind

@[grind ←]
theorem preserves_open : Preserves Pooled («open» build pid path flags) := by
  unfold «open»
  grind

@[grind ←]
theorem preserves_resetSlot : Preserves Pooled (resetSlot build pid fd) := by
  unfold resetSlot setSlot
  grind

@[grind ←]
theorem preserves_copySlot : Preserves Pooled (copySlot pid fd e) := by
  unfold copySlot setSlot
  grind

@[grind ←]
theorem preserves_close : Preserves Pooled (close build pid d) := by
  unfold close
  grind

@[grind ←]
theorem preserves_duplicate : Preserves Pooled (duplicate pid d) := by
  refine Preserves.get.bind fun s => ?_
  cases s.tables pid with
  | none => exact .pure _
  | some table =>
    cases table d.toNat <;> cases freeFd table <;> grind

@[grind ←]
theorem preserves_duplicateTo {d d' : ℤ} : Preserves Pooled (duplicateTo build pid d d') := by
  unfold duplicateTo
  grind

@[grind ←]
theorem preserves_destroyTable : Preserves Pooled (destroyTable build pid) :=
  (Preserves.forM fun _ => preserves_resetSlot).bind fun _ =>
    preserves_modify (by rfl) (by rfl)

theorem preserves_openStdioAll (fds : List ℕ) : Preserves Pooled (openStdioAll build pid fds) := by
  induction fds with
  | nil => exact .pure _
  | cons first rest ih =>
    refine Preserves.bind ?_ fun done => .ite ih (preserves_destroyTable.bind fun _ => .pure _)
    refine (preserves_newEntry (by decide)).bind fun made => ?_
    unfold allocateAt setSlot
    grind

@[grind ←]
theorem preserves_prepareTable : Preserves Pooled (prepareTable build pid) :=
  (preserves_modify (by rfl) (by rfl)).bind fun _ => preserves_openStdioAll [0, 1, 2]

@[grind ←]
theorem preserves_entryOf : Preserves Pooled (entryOf pid d) := by
  apply Preserves.of_eq
  intro s value s' returned
  unfold entryOf at returned
  rw [run_get_bind] at returned
  cases known : s.tables pid with
  | none =>
    rw [known] at returned
    exact nomatch returned
  | some table =>
    rw [known] at returned
    cases returned
    rfl

/-- `Read` keeps the maps sound. -/
@[grind ←]
theorem preserves_read {count : ℕ} : Preserves Pooled (read pid d count) := by
  refine .ite (.pure _) (preserves_entryOf.bind fun found => ?_)
  cases found with
  | none => exact .pure _
  | some e =>
    refine preserves_onEntries_deref.bind fun entry => .ite (.pure _) ?_
    cases entry.handle with
    | null => exact .pure _
    | pipe => exact .pure _
    | file a =>
      refine preserves_onFiles_deref.bind fun file => Preserves.get.bind fun s => ?_
      cases s.contents (pathKey file.path) with
      | none => exact .pure _
      | some bytes => exact preserves_offset.bind fun _ => .pure _

/-- `Write` keeps the maps sound. -/
@[grind ←]
theorem preserves_write : Preserves Pooled (write pid d buffer) := by
  refine .ite (.pure _) (preserves_entryOf.bind fun found => ?_)
  cases found with
  | none => exact .pure _
  | some e =>
    refine preserves_onEntries_deref.bind fun entry => .ite (.pure _) ?_
    cases entry.handle with
    | null => exact .pure _
    | pipe => exact .pure _
    | file a =>
      refine preserves_onFiles_deref.bind fun file => preserves_offset.bind fun _ =>
        Preserves.get.bind fun s => ?_
      cases s.contents (pathKey file.path) with
      | none => exact .pure _
      | some bytes =>
        exact (preserves_modify (by rfl) (by rfl)).bind fun _ =>
          preserves_offset.bind fun _ => .pure _

@[grind ←]
theorem preserves_seek {d delta : ℤ} : Preserves Pooled (seek pid d delta whence) := by
  refine preserves_entryOf.bind fun found => ?_
  cases found with
  | none => exact .pure _
  | some e =>
    refine preserves_onEntries_deref.bind fun entry => ?_
    cases entry.handle with
    | null => exact .pure _
    | pipe => exact .pure _
    | file a =>
      exact preserves_onFiles_deref.bind fun file => preserves_offset.bind fun _ => .pure _

theorem preserves_perform (call : Call) : Preserves Pooled (call.perform build) := by
  unfold Call.perform
  grind

/-- A call is made and returns, whatever is open. -/
def Steps (build : Build) (s s' : FdManager) : Prop :=
  ∃ call : Call, call.Permitted s ∧ (call.perform build).run s = .ok () s'

theorem pooled_of_run {contents : PathKey → Option (List UInt8)}
    (run : ReflTransGen (Steps build) (FdManager.initial contents) s) : s.Pooled := by
  induction run with
  | refl => exact Pooled.initial contents
  | tail _ steps pooled =>
    obtain ⟨call, _, returned⟩ := steps
    exact preserves_perform call _ _ _ pooled returned

/-- There is room for one more open file. -/
structure Room (s : FdManager) (pid : ℕ) (path : Path) : Prop where
  named : path.isEmpty = false
  file : s.InUse path ∨ s.files.pool ≠ []
  entry : s.entries.pool ≠ []
  fd : ∃ table, s.tables pid = some table ∧ freeFd table ≠ none

/-- An entry that was just made. -/
def withEntry (s : FdManager) (a : ℕ) (file : File) (flags : OpenMode) (idx : ℕ)
    (rest : List ℕ) : FdManager :=
  (s.bumpFile a file).addEntry idx rest
    (newEntryOf (.file a) flags (flags.hasMode kAppend) idx)

/-- The entry that was just made is released together with its handle. -/
theorem Pooled.run_releaseEntry_new (pooled : s.Pooled) (top : s.entries.pool = idx :: rest)
    (known : s.files.heap a = some file) :
    ∃ s' file', (releaseEntry build s.entries.next).run
        (s.withEntry a file flags idx rest) = .ok () s' ∧
      s'.contents = s.contents ∧ s'.files.heap a = some file' := by
  have grown : (s.withEntry a file flags idx rest).Pooled :=
    (pooled.run_addRefFile known).2.addEntry top rfl
  have here : (s.withEntry a file flags idx rest).entries.heap s.entries.next =
      some (newEntryOf (.file a) flags (flags.hasMode kAppend) idx) := by
    exact update_self _ _ _
  have counted : ((s.withEntry a file flags idx rest).dropEntry s.entries.next
      (newEntryOf (.file a) flags (flags.hasMode kAppend) idx)).files.heap a =
        some { file with refCount := file.refCount + 1 } := update_self _ _ _
  obtain ⟨released, _⟩ := (grown.dropEntry here).run_releaseFile counted
  have positive := (pooled.files.good a file known).1
  have last : (newEntryOf (.file a) flags (flags.hasMode kAppend) idx).refCount = 1 := rfl
  have returned := (grown.run_releaseEntry here).trans ((if_pos last).trans released)
  refine ⟨_, { file with refCount := file.refCount + 1 - 1 }, returned, rfl, ?_⟩
  rw [heap_dropFile, update_self, if_neg (by simp only; omega)]

/-- With a file in hand, a descriptor is returned if there is room. -/
theorem Pooled.run_openOn (build : Build) (pid : ℕ) (flags : OpenMode) (pooled : s.Pooled)
    (known : s.files.heap a = some file) :
    ∃ result s' file', (openOn build pid a flags).run s = .ok result s' ∧
      s'.contents = s.contents ∧ s'.files.heap a = some file' ∧
      ((∃ fd, result = .ok fd) ↔ s.entries.pool ≠ [] ∧
        ∃ table, s.tables pid = some table ∧ freeFd table ≠ none) := by
  unfold openOn openFile
  cases pool : s.entries.pool with
  | nil =>
    rw [run_bind (Pooled.run_newEntry_full pool)]
    exact ⟨.error .ioError, s, file, rfl, rfl, known, by simp⟩
  | cons idx rest =>
    have made : (newEntry build (.file a) flags (flags.hasMode kAppend)).run s =
        .ok (.ok s.entries.next) (s.withEntry a file flags idx rest) :=
      pooled.run_newEntry pool file fun b same => FileHandle.file.inj same ▸ known
    have tables : (s.withEntry a file flags idx rest).tables = s.tables := rfl
    obtain ⟨s', file', released, same, known'⟩ : ∃ s' file',
        (releaseEntry build s.entries.next).run (s.withEntry a file flags idx rest) =
          .ok () s' ∧ s'.contents = s.contents ∧ s'.files.heap a = some file' :=
      pooled.run_releaseEntry_new pool known
    rw [run_bind made]
    unfold allocateFd
    rw [run_get_bind, tables]
    cases running : s.tables pid with
    | none => exact ⟨_, s', file', run_bind released, same, known', by simp⟩
    | some table =>
      cases free : freeFd table with
      | none =>
        simp only [free]
        exact ⟨_, s', file', run_bind released, same, known', by simp [free]⟩
      | some fd =>
        simp only [free]
        exact ⟨.ok fd, _, { file with refCount := file.refCount + 1 }, rfl, rfl,
          update_self _ _ _, by simp [free]⟩

/-- The pointer to the file is released afterwards. -/
theorem Pooled.run_openOn_releaseFile (pid : ℕ) (flags : OpenMode)
    (pooled : s.Pooled) (known : s.files.heap a = some file) :
    ∃ result s', EStateM.run (do
        let result ← openOn build pid a flags
        releaseFile build a
        return result) s = .ok result s' ∧ s'.contents = s.contents ∧
      ((∃ fd, result = .ok fd) ↔ s.entries.pool ≠ [] ∧
        ∃ table, s.tables pid = some table ∧ freeFd table ≠ none) := by
  obtain ⟨result, s', file', returned, same, known', opened⟩ :=
    pooled.run_openOn build pid flags known
  have pooled' := preserves_openOn s result s' pooled returned
  rw [run_bind returned]
  exact ⟨result, _, run_bind (pooled'.run_releaseFile known').1, same, opened⟩

/-- A file is opened if it exists and there is room. -/
theorem Pooled.run_open (pooled : s.Pooled) :
    ∃ result s', («open» build pid path flags).run s = .ok result s' ∧
      s'.contents = s.contents ∧
      ((∃ fd, result = .ok fd) ↔ s.contents (pathKey path) ≠ none ∧ s.Room pid path) := by
  unfold «open»
  rw [run_get_bind]
  cases present : s.contents (pathKey path) with
  | none => exact ⟨_, s, rfl, rfl, by simp⟩
  | some bytes =>
    rw [if_neg (by simp)]
    rcases pooled.run_getOrCreate build path with
      ⟨error, ran, full⟩ | ⟨a, file, files, ran, pooled', known, named, free⟩
    · rw [run_bind ran]
      refine ⟨.error error, s, rfl, rfl, by simp, fun ⟨_, room⟩ => ?_⟩
      exact absurd ⟨room.named, room.file⟩ full
    · obtain ⟨result, s', returned, same, iff⟩ :=
        pooled'.run_openOn_releaseFile pid flags known
      rw [run_bind ran]
      refine ⟨result, s', returned, same, iff.trans ⟨?_, ?_⟩⟩
      · intro ⟨entry, fd⟩
        exact ⟨Option.some_ne_none bytes, named, free, entry, fd⟩
      · intro ⟨_, room⟩
        exact ⟨room.entry, room.fd⟩

/-- A descriptor of a process belongs to an entry for a file. -/
structure Describes (s : FdManager) (pid : ℕ) (d : ℤ) (e : ℕ) (entry : OpenFileEntry) (a : ℕ) :
    Prop where
  slot : ∃ table, s.tables pid = some table ∧ isValidFd d = true ∧ table d.toNat = some e
  known : s.entries.heap e = some entry
  handle : entry.handle = .file a

theorem Describes.run_entryOf (describes : s.Describes pid d e entry a) :
    (entryOf pid d).run s = .ok (some e) s := by
  obtain ⟨table, running, valid, here⟩ := describes.slot
  unfold entryOf
  rw [run_get_bind, running]
  simp only [valid, here]
  rfl

/-- A file that does not exist has no bytes. -/
def sizeOf (s : FdManager) (path : Path) : ℕ := ((s.contents (pathKey path)).getD []).length

/-- What a seek is relative to. -/
def seekBase (s : FdManager) (entry : OpenFileEntry) (file : File) : FdSeek → ℕ
  | .set => 0
  | .cur => entry.offset
  | .end => s.sizeOf file.path

/-- A write of some bytes through a descriptor that may write. -/
theorem Describes.run_write {buffer bytes : List UInt8} (describes : s.Describes pid d e entry a)
    (known : s.files.heap a = some file) (mode : entry.flags.hasMode kWrite = true)
    (nonempty : buffer ≠ []) (present : s.contents (pathKey file.path) = some bytes) :
    ∃ s', (write pid d buffer).run s = .ok (.ok buffer.length) s' ∧
      s'.contents = update s.contents (pathKey file.path) (some (overwrite bytes
        (if entry.isAppend = true then file.size else entry.offset) buffer)) := by
  unfold write
  rw [if_neg (by simpa using nonempty), run_bind describes.run_entryOf]
  rw [run_bind (run_onEntries (run_deref describes.known))]
  simp only [mode, Bool.not_true, Bool.false_eq_true, ↓reduceIte, describes.handle]
  rw [run_bind (run_onFiles (run_deref known)),
    run_bind (run_onEntries (run_update _ describes.known)),
    run_get_bind]
  simp only [present]
  exact ⟨_, run_bind (run_onEntries
    (run_update _ PooledHashMap.heap_put_self)), rfl⟩

/-- A seek on a file never fails. -/
theorem Describes.run_seek {d delta : ℤ} (describes : s.Describes pid d e entry a)
    (known : s.files.heap a = some file) :
    (seek pid d delta whence).run s =
      .ok (.ok (seekTarget whence entry.offset file.size delta)) { s with
        entries := s.entries.put e { entry with
          offset := (seekTarget whence entry.offset file.size delta % 2 ^ 64).toNat } } := by
  unfold seek
  rw [run_bind describes.run_entryOf]
  rw [run_bind (run_onEntries (run_deref describes.known))]
  simp only [describes.handle]
  rw [run_bind (run_onFiles (run_deref known)),
    run_bind (run_onEntries (run_update _ describes.known))]
  rw [describes.handle]
  rfl

/-- A write at the beginning appends only to an empty file. -/
theorem overwrite_zero_eq_append {bytes buffer : List UInt8} (nonempty : buffer ≠ []) :
    overwrite bytes 0 buffer = bytes ++ buffer ↔ bytes = [] := by
  constructor
  · intro same
    have lengths := congrArg List.length same
    have positive := List.length_pos_iff.mpr nonempty
    simp only [overwrite, List.take_zero, Nat.zero_sub, List.replicate_zero,
      List.nil_append, List.length_append, List.length_drop] at lengths
    exact List.length_eq_zero_iff.mp (by omega)
  · intro empty
    simp [overwrite, empty]

/-- What a call owes: an open creates or empties the file as its flags say, a write with the append
flag adds at the end, a seek to a negative offset fails, and a seek from the end is relative to the
size. -/
def Lawful (build : Build) (writable : Path → Prop) (s : FdManager) : Call → Prop
  | .open pid path flags =>
    (flags.hasMode kCreate = true → writable path →
      ∃ fd s', («open» build pid path flags).run s = .ok (.ok fd) s' ∧
        s'.contents (pathKey path) ≠ none) ∧
    (flags.hasMode kTruncate = true →
      ∀ fd s', («open» build pid path flags).run s = .ok (.ok fd) s' →
        s'.contents (pathKey path) = some [])
  | .write pid d buffer =>
    ∀ e entry a, s.Describes pid d e entry a → entry.flags.hasMode kWrite = true →
      entry.flags.hasMode kAppend = true → buffer ≠ [] →
      ∃ file, s.files.heap a = some file ∧
        ∀ bytes, s.contents (pathKey file.path) = some bytes →
          ∃ s', (write pid d buffer).run s = .ok (.ok buffer.length) s' ∧
            s'.contents = update s.contents (pathKey file.path) (some (bytes ++ buffer))
  | .seek pid d delta whence =>
    ∀ e entry a, s.Describes pid d e entry a → ∃ file, s.files.heap a = some file ∧
      (s.seekBase entry file whence + delta < 0 →
        ∃ error s' entry', (seek pid d delta whence).run s = .ok (.error error) s' ∧
          s'.entries.heap e = some entry' ∧ entry'.offset = entry.offset) ∧
      (whence = .end → 0 ≤ s.seekBase entry file whence + delta →
        ∃ target s' entry', (seek pid d delta whence).run s = .ok (.ok target) s' ∧
          s'.entries.heap e = some entry' ∧
          (entry'.offset : ℤ) = s.seekBase entry file whence + delta)
  | _ => True

/-- When calls do: the file exists and there is room for a descriptor; a file whose size matters is
empty; and no seek leads to a negative offset. -/
def Meets (writable : Path → Prop) (s : FdManager) : Call → Prop
  | .open pid path flags =>
    (flags.hasMode kCreate = true → writable path →
      s.contents (pathKey path) ≠ none ∧ s.Room pid path) ∧
    (flags.hasMode kTruncate = true → s.Room pid path → s.sizeOf path = 0)
  | .write pid d buffer =>
    ∀ e entry a, s.Describes pid d e entry a → entry.flags.hasMode kWrite = true →
      entry.flags.hasMode kAppend = true → buffer ≠ [] →
      ∃ file, s.files.heap a = some file ∧ s.sizeOf file.path = 0
  | .seek pid d delta whence =>
    ∀ e entry a, s.Describes pid d e entry a → ∃ file, s.files.heap a = some file ∧
      0 ≤ s.seekBase entry file whence + delta ∧ (whence = .end → s.sizeOf file.path = 0)
  | _ => True

/-- The offsets of seeks are signed 64-bit numbers. -/
def Typed : Call → Prop
  | .seek _ _ delta _ => -2 ^ 63 ≤ delta ∧ delta < 2 ^ 63
  | _ => True

theorem sizeOf_eq_zero_iff : s.sizeOf path = 0 ↔
    ∀ bytes, s.contents (pathKey path) = some bytes → bytes = [] := by
  unfold sizeOf
  cases s.contents (pathKey path) with
  | none => simp
  | some bytes => simp

/-- When `Open` does what it owes. -/
theorem lawful_open_iff (pooled : s.Pooled) :
    s.Lawful build writable (.open pid path flags) ↔ s.Meets writable (.open pid path flags) := by
  obtain ⟨result, s', returned, same, opened⟩ : ∃ result s',
      («open» build pid path flags).run s = .ok result s' ∧ s'.contents = s.contents ∧
        ((∃ fd, result = .ok fd) ↔ s.contents (pathKey path) ≠ none ∧ s.Room pid path) :=
    pooled.run_open
  refine and_congr ?_ ?_
  · refine imp_congr_right fun _ => imp_congr_right fun _ => ⟨?_, ?_⟩
    · intro ⟨fd, after, succeeded, _⟩
      cases returned.symm.trans succeeded
      exact opened.mp ⟨fd, rfl⟩
    · intro ready
      obtain ⟨fd, rfl⟩ := opened.mpr ready
      exact ⟨fd, s', returned, by rw [same]; exact ready.1⟩
  · refine imp_congr_right fun _ => ⟨?_, ?_⟩
    · intro empty room
      rw [sizeOf_eq_zero_iff]
      intro bytes present
      obtain ⟨fd, rfl⟩ := opened.mpr ⟨present ▸ Option.some_ne_none bytes, room⟩
      have left := empty fd s' returned
      rw [same, present] at left
      exact Option.some.inj left
    · intro empty fd after succeeded
      cases returned.symm.trans succeeded
      obtain ⟨present, room⟩ := opened.mp ⟨fd, rfl⟩
      obtain ⟨bytes, present⟩ := Option.ne_none_iff_exists'.mp present
      rw [same, present, sizeOf_eq_zero_iff.mp (empty room) bytes present]

/-- When `Write` does what it owes. -/
theorem lawful_write_iff (pooled : s.Pooled) :
    s.Lawful build writable (.write pid d buffer) ↔ s.Meets writable (.write pid d buffer) := by
  refine forall_congr' fun e => forall_congr' fun entry => forall_congr' fun a =>
    imp_congr_right fun describes => imp_congr_right fun mode => imp_congr_right fun append =>
    imp_congr_right fun nonempty => exists_congr fun file => and_congr_right fun known => ?_
  have start : (if entry.isAppend = true then file.size else entry.offset) = 0 := by
    rw [(pooled.entries.good e entry describes.known).2, if_pos append]
    exact (pooled.files.good a file known).2
  rw [sizeOf_eq_zero_iff]
  refine forall_congr' fun bytes => imp_congr_right fun present => ?_
  obtain ⟨s', returned, same⟩ := describes.run_write known mode nonempty present
  rw [start] at same
  constructor
  · intro ⟨after, again, appended⟩
    cases returned.symm.trans again
    have stored := congrFun (same.symm.trans appended) (pathKey file.path)
    rw [update_self, update_self, Option.some.injEq] at stored
    exact (overwrite_zero_eq_append nonempty).mp stored
  · intro empty
    exact ⟨s', returned, by rw [same, (overwrite_zero_eq_append nonempty).mpr empty]⟩

/-- The end of a file is taken to be its beginning. -/
theorem seekTarget_end {delta : ℤ} (offset : ℕ) (typed : -2 ^ 63 ≤ delta ∧ delta < 2 ^ 63) :
    seekTarget .end offset 0 delta = delta := by
  change (0 + delta).bmod (2 ^ 64) = delta
  rw [zero_add, Int.bmod_eq_of_le (by omega) (by omega)]

/-- When `Seek` does what it owes. -/
theorem lawful_seek_iff {d delta : ℤ} (pooled : s.Pooled) (typed : -2 ^ 63 ≤ delta ∧ delta < 2 ^ 63)
    (small : ∀ path, s.sizeOf path < 2 ^ 64) :
    s.Lawful build writable (.seek pid d delta whence) ↔
      s.Meets writable (.seek pid d delta whence) := by
  refine forall_congr' fun e => forall_congr' fun entry => forall_congr' fun a =>
    imp_congr_right fun describes => exists_congr fun file => and_congr_right fun known => ?_
  have returned : (seek pid d delta whence).run s = _ := describes.run_seek known
  have unset := (pooled.files.good a file known).2
  have small := small file.path
  constructor
  · intro ⟨fails, exact⟩
    have positive : 0 ≤ s.seekBase entry file whence + delta := by
      by_contra negative
      obtain ⟨error, s', entry', again, _⟩ := fails (by omega)
      cases returned.symm.trans again
    refine ⟨positive, ?_⟩
    intro atEnd
    subst atEnd
    obtain ⟨target, s', entry', again, moved, offset⟩ := exact rfl positive
    cases returned.symm.trans again
    rw [heap_put, update_self, Option.some.injEq] at moved
    rw [← moved, unset, seekTarget_end _ typed] at offset
    simp only [seekBase] at offset
    omega
  · intro ⟨positive, empty⟩
    refine ⟨fun negative => by omega, ?_⟩
    intro atEnd _
    subst atEnd
    refine ⟨_, _, _, returned, by rw [heap_put, update_self], ?_⟩
    simp only [seekBase, empty] at positive ⊢
    simp only [unset, seekTarget_end _ typed]
    omega

/-- In every state of every run, a call does what it owes exactly if it meets the
condition. -/
theorem lawful_iff_meets {contents : PathKey → Option (List UInt8)} {writable : Path → Prop}
    {call : Call} (run : ReflTransGen (Steps build) (FdManager.initial contents) s)
    (typed : Typed call) (small : ∀ path, s.sizeOf path < 2 ^ 64) :
    s.Lawful build writable call ↔ s.Meets writable call := by
  have pooled := pooled_of_run run
  cases call with
  | «open» pid path flags => exact lawful_open_iff pooled
  | write pid d buffer => exact lawful_write_iff pooled
  | seek pid d delta whence => exact lawful_seek_iff pooled typed small
  | _ => exact Iff.rfl

/-- The path `/B`, which no file has. -/
def pathB : Path := Path.parse [47, 66]

/-- A process that has no file open yet. -/
def started : FdManager :=
  { after .debug (FdManager.initial oneFile) [.prepare 0] with contents := oneFile }

theorem run_started : ReflTransGen (Steps .debug) (FdManager.initial oneFile) started := by
  obtain ⟨call, permitted, _, returned⟩ : Performs .debug (FdManager.initial oneFile)
      (after .debug (FdManager.initial oneFile) [.prepare 0]) :=
    performs_after ⟨by decide, rfl⟩ trivial (by decide +kernel)
  exact (ReflTransGen.single ⟨call, permitted, returned⟩).tail ⟨.vfs oneFile, trivial, rfl⟩

/-- `/A` exists, and an open of it with the create flag succeeds. -/
theorem lawful_iff_meets_existing :
    started.Lawful .debug (fun _ => True)
      (.open 0 pathA (kWrite ||| kCreate)) := by
  have typed : Typed (.open 0 pathA (kWrite ||| kCreate)) := trivial
  have small : ∀ path, started.sizeOf path < 2 ^ 64 := by
    intro path
    change ((oneFile (pathKey path)).getD []).length < 2 ^ 64
    unfold oneFile
    split <;> decide
  have free : ((started.tables 0).bind freeFd).isSome = true := by decide +kernel
  obtain ⟨fd, free⟩ := Option.isSome_iff_exists.mp free
  obtain ⟨table, running, free⟩ := Option.bind_eq_some_iff.mp free
  have room : started.Room 0 pathA :=
    ⟨by decide, .inr (by decide +kernel), by decide +kernel, table, running, by simp [free]⟩
  refine (lawful_iff_meets run_started typed small).mpr ⟨?_, ?_⟩
  · intro _ _
    exact ⟨by decide, room⟩
  · intro truncate
    exact absurd truncate (by decide)

/-- An append replaces the byte of `/A`, a missing file is not created, a truncated one keeps its
byte, and seeks to the end and to a negative offset go wrong. -/
theorem not_lawful_of_flags :
    (after .debug started [.open 0 pathA (kWrite ||| kAppend),
        .write 0 3 [9]]).contents (pathKey pathA) = some [9] ∧
      (after .debug started [.open 0 pathA (kWrite ||| kTruncate)]).contents
        (pathKey pathA) = some [7] ∧
      outcome ((seek 0 3 0 .end).run
        (after .debug started [.open 0 pathA kRead])) = some (.ok 0) ∧
      outcome ((seek 0 3 (-1) .set).run
        (after .debug started [.open 0 pathA kRead])) = some (.ok (-1)) ∧
      ¬ started.Lawful .debug (fun _ => True)
        (.open 0 pathB (kWrite ||| kCreate)) := by
  refine ⟨by decide +kernel, by decide +kernel, by decide +kernel, by decide +kernel, ?_⟩
  intro lawful
  obtain ⟨fd, s', returned, _⟩ := lawful.1 (by decide) trivial
  have missing : outcome (EStateM.run («open» .debug 0 pathB
      (kWrite ||| kCreate)) started) = some (.error .notFound) := by
    decide +kernel
  rw [returned] at missing
  exact nomatch missing

end AlkOS.Fs.FdManager
