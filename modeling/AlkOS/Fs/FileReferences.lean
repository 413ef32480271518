import AlkOS.Foundation.Occurrences
import AlkOS.Fs.FileDescriptor

/-!
# References to open files

The count of an entry is the number of descriptors that hold it, the count of a file the
number of entries that refer to it. While a call runs, its temporaries hold further
references; they are kept in two lists.
-/

namespace AlkOS.Fs.FdManager

open Kernel Containers Vfs Occurrences Function OpenMode
open PooledHashMap (run_update run_get run_deref run_allocate_nil run_allocate map_taken heap_taken
  heap_put_self heap_put heap_add)

/-- A file in use is counted, and nothing ever sets its size. -/
def GoodFile (file : File) : Prop := 0 < file.refCount ∧ file.size = 0

/-- An entry in use is counted, and appends if it was opened for it. -/
def GoodEntry (entry : OpenFileEntry) : Prop :=
  0 < entry.refCount ∧ entry.isAppend = entry.flags.hasMode kAppend

/-- Files and entries know their slots. -/
structure Pooled (s : FdManager) : Prop where
  files : s.files.Indexed File.poolIdx GoodFile
  entries : s.entries.Indexed OpenFileEntry.poolIdx GoodEntry

variable {s s' : FdManager} {build : Build} {spare spare' held held' : List ℕ}
  {a b e pid fd idx : ℕ} {α : Type} {file : File} {entry : OpenFileEntry} {path : Path}
  {flags : OpenMode} {handle : FileHandle} {isAppend : Bool} {rest : List ℕ}
  {files : PooledHashMap File kMaxActiveFiles} {entries : PooledHashMap OpenFileEntry kMaxOpenFiles}
  {table : FdTable}

theorem run_onFiles {run : Kernel (PooledHashMap File kMaxActiveFiles) α} {value : α}
    (returned : EStateM.run run s.files = .ok value files) :
    (onFiles run).run s = .ok value { s with files := files } :=
  run_zoom_of_ok returned

theorem run_onEntries {run : Kernel (PooledHashMap OpenFileEntry kMaxOpenFiles) α} {value : α}
    (returned : EStateM.run run s.entries = .ok value entries) :
    (onEntries run).run s = .ok value { s with entries := entries } :=
  run_zoom_of_ok returned

/-- The file table after a reference was added. -/
def bumpFile (s : FdManager) (a : ℕ) (file : File) : FdManager :=
  { s with files := s.files.put a { file with refCount := file.refCount + 1 } }

/-- The file table after a reference was released. -/
def dropFile (s : FdManager) (a : ℕ) (file : File) : FdManager :=
  { s with
    files := if file.refCount = 1 then s.files.released file.poolIdx a
      else s.files.put a { file with refCount := file.refCount - 1 } }

/-- The open file table after a reference was added. -/
def bumpEntry (s : FdManager) (e : ℕ) (entry : OpenFileEntry) : FdManager :=
  { s with entries := s.entries.put e { entry with refCount := entry.refCount + 1 } }

/-- The open file table after a reference was released. -/
def dropEntry (s : FdManager) (e : ℕ) (entry : OpenFileEntry) : FdManager :=
  { s with
    entries := if entry.refCount = 1 then s.entries.released entry.poolIdx e
      else s.entries.put e { entry with refCount := entry.refCount - 1 } }

/-- A file as `GetOrCreate` returns it. -/
def newFile (path : Path) (idx : ℕ) : File := { refCount := 1, path := path, poolIdx := idx }

/-- Take a slot of the file table for a path. -/
def addFile (s : FdManager) (idx : ℕ) (rest : List ℕ) (path : Path) : FdManager :=
  { s with files := s.files.add idx rest (newFile path idx) }

/-- An entry as `OpenFile` and `OpenPipe` return it. -/
def newEntryOf (handle : FileHandle) (flags : OpenMode) (isAppend : Bool) (idx : ℕ) :
    OpenFileEntry :=
  { refCount := 1, handle := handle, flags := flags, isAppend := isAppend, poolIdx := idx }

/-- Take a slot of the open file table for an entry. -/
def addEntry (s : FdManager) (idx : ℕ) (rest : List ℕ) (entry : OpenFileEntry) : FdManager :=
  { s with entries := s.entries.add idx rest entry }

/-- The file table after a handle was made. -/
def linkHandle (s : FdManager) (handle : FileHandle) (file : File) : FdManager :=
  match handle with
  | .null => s
  | .file a => s.bumpFile a file
  | .pipe => s

theorem heap_dropFile : (s.dropFile a file).files.heap = update s.files.heap a
    (if file.refCount = 1 then none else some { file with refCount := file.refCount - 1 }) := by
  unfold dropFile
  split_ifs <;> rfl

theorem heap_dropEntry : (s.dropEntry e entry).entries.heap = update s.entries.heap e
    (if entry.refCount = 1 then none else some { entry with refCount := entry.refCount - 1 }) := by
  unfold dropEntry
  split_ifs <;> rfl

theorem next_dropEntry : (s.dropEntry e entry).entries.next = s.entries.next := by
  unfold dropEntry
  split_ifs <;> rfl

namespace Pooled

theorem run_addRefFile (pooled : s.Pooled) (known : s.files.heap a = some file) :
    (addRefFile a).run s = .ok () (s.bumpFile a file) ∧ (s.bumpFile a file).Pooled :=
  ⟨run_onFiles (run_update _ known),
    pooled.files.put known rfl ⟨Nat.succ_pos _, (pooled.files.good a file known).2⟩,
    pooled.entries⟩

/-- A reference to a file is released. -/
theorem run_releaseFile (pooled : s.Pooled) (known : s.files.heap a = some file) :
    (releaseFile build a).run s = .ok () (s.dropFile a file) ∧
      (s.dropFile a file).Pooled := by
  have good := pooled.files.good a file known
  refine ⟨?_, pooled.files.dropped known rfl fun more => ⟨?_, good.2⟩, pooled.entries⟩
  · unfold releaseFile dropFile
    rw [run_bind (run_onFiles (run_deref known)),
      run_bind (run_onFiles (run_update _ known)),
      run_bind (run_assertTrue good.1)]
    split_ifs
    · exact run_onFiles (pooled.files.run_free_put known)
    · rfl
  · exact Nat.sub_pos_of_lt (lt_of_le_of_ne' good.1 more)

section

variable (pooled : s.Pooled) (known : s.entries.heap e = some entry)
include pooled known

theorem run_addRefEntry :
    (addRefEntry e).run s = .ok () (s.bumpEntry e entry) ∧
      (s.bumpEntry e entry).Pooled :=
  ⟨run_onEntries (run_update _ known), pooled.files,
    pooled.entries.put known rfl ⟨Nat.succ_pos _, (pooled.entries.good e entry known).2⟩⟩

theorem dropEntry : (s.dropEntry e entry).Pooled := by
  have good := pooled.entries.good e entry known
  exact ⟨pooled.files, pooled.entries.dropped known rfl fun more =>
    ⟨Nat.sub_pos_of_lt (lt_of_le_of_ne' good.1 more), good.2⟩⟩

/-- The entry is released first and its handle, if it was the last reference,
afterwards. -/
theorem run_releaseEntry :
    (releaseEntry build e).run s =
      if entry.refCount = 1 then
        (destroyHandle build entry.handle).run (s.dropEntry e entry)
      else .ok () (s.dropEntry e entry) := by
  have good := pooled.entries.good e entry known
  unfold releaseEntry FdManager.dropEntry
  rw [run_bind (run_onEntries (run_deref known)),
    run_bind (run_onEntries (run_update _ known)),
    run_bind (run_assertTrue good.1)]
  split_ifs
  · exact run_bind (run_onEntries (pooled.entries.run_free_put known))
  · rfl

end

/-- Making a file for a path that is not found. -/
theorem run_getOrCreate_new (pooled : s.Pooled) (named : path.isEmpty = false)
    (missing : find s.files path = none) (top : s.files.pool = idx :: rest) :
    (getOrCreate build path).run s = .ok (.ok s.files.next) (s.addFile idx rest path) ∧
      (s.addFile idx rest path).Pooled := by
  refine ⟨?_, pooled.files.add top rfl ⟨Nat.one_pos, rfl⟩, pooled.entries⟩
  have inside := (pooled.files.sound.of_top top).1
  unfold getOrCreate
  rw [if_neg (Bool.eq_false_iff.mp named), run_get_bind, missing]
  rw [run_bind (run_onFiles (run_allocate top)),
    run_bind (run_onFiles (run_get inside))]
  simp only [map_taken]
  rw [run_bind (run_onFiles (run_update _ heap_taken)), addRefFile,
    run_bind (run_onFiles (run_update _ heap_put_self))]
  simp [PooledHashMap.put, PooledHashMap.add, addFile, newFile]

/-- A full table makes no file. -/
theorem run_getOrCreate_full (named : path.isEmpty = false)
    (missing : find s.files path = none) (full : s.files.pool = []) :
    (getOrCreate build path).run s = .ok (.error .ioError) s := by
  unfold getOrCreate
  rw [if_neg (Bool.eq_false_iff.mp named), run_get_bind, missing]
  rw [run_bind (run_onFiles (run_allocate_nil full))]
  rfl

/-- A path in use is adopted. -/
theorem run_getOrCreate_found (named : path.isEmpty = false) (found : find s.files path = some a) :
    (getOrCreate build path).run s = .ok (.ok a) s := by
  unfold getOrCreate
  rw [if_neg (Bool.eq_false_iff.mp named), run_get_bind, found]
  rfl

theorem run_getOrCreate_unnamed (unnamed : path.isEmpty = true) :
    (getOrCreate build path).run s = .ok (.error .invalidArgument) s := by
  unfold getOrCreate
  rw [if_pos unnamed]
  rfl

theorem run_newEntry_full (full : s.entries.pool = []) :
    (newEntry build handle flags isAppend).run s = .ok (.error .ioError) s := by
  unfold newEntry
  rw [run_bind (run_onEntries (run_allocate_nil full))]
  rfl

/-- The handle of a new entry adds its reference, and the entry takes a slot. -/
theorem run_newEntry (pooled : s.Pooled) (top : s.entries.pool = idx :: rest) (file : File)
    (ready : ∀ a, handle = .file a → s.files.heap a = some file) :
    (newEntry build handle flags isAppend).run s = .ok (.ok s.entries.next)
      ((s.linkHandle handle file).addEntry idx rest (newEntryOf handle flags isAppend idx)) := by
  have inside := (pooled.entries.sound.of_top top).1
  have finish : ∀ files, EStateM.run (do
      onEntries (PooledHashMap.update s.entries.next fun _ =>
        { handle := handle, flags := flags, isAppend := isAppend, poolIdx := idx })
      addRefEntry s.entries.next
      return (.ok s.entries.next : Except FdError ℕ))
        { s with files := files, entries := s.entries.taken idx rest } =
      .ok (.ok s.entries.next) (addEntry { s with files := files } idx rest
        (newEntryOf handle flags isAppend idx)) := by
    intro files
    rw [run_bind (run_onEntries (run_update _ heap_taken)),
      addRefEntry,
      run_bind (run_onEntries (run_update _ heap_put_self))]
    simp [addEntry, PooledHashMap.put, PooledHashMap.add, newEntryOf]
  unfold newEntry
  rw [run_bind (run_onEntries (run_allocate top)),
    run_bind (run_onEntries (run_get inside))]
  simp only [map_taken]
  cases handle with
  | null => exact finish s.files
  | pipe => exact finish s.files
  | file a =>
    have added := run_onFiles (s := { s with entries := s.entries.taken idx rest })
      (run_update (fun file => { file with refCount := file.refCount + 1 })
        (ready a rfl))
    exact (run_bind added).trans (finish _)

theorem addEntry (pooled : s.Pooled) (top : s.entries.pool = idx :: rest)
    (append : isAppend = flags.hasMode kAppend) :
    (s.addEntry idx rest (newEntryOf handle flags isAppend idx)).Pooled :=
  ⟨pooled.files, pooled.entries.add top rfl ⟨Nat.one_pos, append⟩⟩

/-- The offset of an entry is moved. -/
theorem with_offset (pooled : s.Pooled) (known : s.entries.heap e = some entry) (offset : ℕ) :
    Pooled { s with entries := s.entries.put e { entry with offset := offset } } :=
  ⟨pooled.files, pooled.entries.put known rfl (pooled.entries.good e entry known)⟩

theorem initial (contents : PathKey → Option (List UInt8)) : (FdManager.initial contents).Pooled :=
  ⟨PooledHashMap.Indexed.initial, PooledHashMap.Indexed.initial⟩

end Pooled

/-- A path that is found belongs to a file in use. -/
theorem find_eq_some (found : find s.files path = some a) (sound : s.files.Sound) :
    ∃ file, s.files.heap a = some file ∧ pathKey file.path = pathKey path := by
  obtain ⟨i, here, slot⟩ := Option.bind_eq_some_iff.mp found
  have fits := List.find?_some here
  unfold isFileOf at fits
  obtain ⟨file, known⟩ := Option.ne_none_iff_exists'.mp (sound.inside i a slot).2
  rw [slot, Option.bind_some, known] at fits
  simp only [samePath, Bool.and_eq_true, beq_iff_eq] at fits
  exact ⟨file, known, fits.2⟩

/-- A path that is not in use is not found. -/
theorem find_eq_none
    (fresh : ∀ b other, s.files.heap b = some other → pathKey other.path ≠ pathKey path) :
    find s.files path = none := by
  unfold find
  rw [List.find?_eq_none.mpr, Option.bind_none]
  intro i _ found
  unfold isFileOf at found
  cases here : (s.files.map i).bind s.files.heap with
  | none =>
    rw [here] at found
    exact nomatch found
  | some other =>
    obtain ⟨b, _, known⟩ := Option.bind_eq_some_iff.mp here
    rw [here] at found
    simp only [samePath, Bool.and_eq_true, beq_iff_eq] at found
    exact fresh b other known found.2

/-- The handle of an entry in use. -/
def handleOf (s : FdManager) (e : ℕ) : Option FileHandle := (s.entries.heap e).map (·.handle)

/-- The entry that a process holds at a descriptor. -/
def slotOf (s : FdManager) (slot : ℕ × ℕ) : Option ℕ :=
  (s.tables slot.1).bind fun table => table slot.2

/-- The number of entries whose handle is a file. -/
def holders (s : FdManager) (a : ℕ) : ℕ :=
  count (Finset.range s.entries.next) s.handleOf (some (.file a))

/-- Every descriptor of every process. -/
@[irreducible] def allSlots : Finset (ℕ × ℕ) :=
  Finset.range kMaxProcesses ×ˢ Finset.range kMaxFdsPerProcess

theorem mem_allSlots : (pid, fd) ∈ allSlots ↔ pid < kMaxProcesses ∧ fd < kMaxFdsPerProcess := by
  unfold allSlots
  simp only [Finset.mem_product, Finset.mem_range]

/-- The number of descriptors that hold an entry. -/
def slots (s : FdManager) (e : ℕ) : ℕ := count allSlots s.slotOf (some e)

/-- The count of a file, none if it is not in use. -/
def fileRefs (s : FdManager) (a : ℕ) : ℕ := ((s.files.heap a).map (·.refCount)).getD 0

/-- The count of an entry, none if it is not in use. -/
def entryRefs (s : FdManager) (e : ℕ) : ℕ := ((s.entries.heap e).map (·.refCount)).getD 0

/-- Every reference is counted, those of the temporaries included. -/
structure Counted (s : FdManager) (spare held : List ℕ) : Prop where
  pooled : s.Pooled
  fileRefs : ∀ a, s.fileRefs a = s.holders a + spare.count a
  entryRefs : ∀ e, s.entryRefs e = s.slots e + held.count e
  path : ∀ a b file other, s.files.heap a = some file → s.files.heap b = some other →
    pathKey file.path = pathKey other.path → a = b
  known : ∀ pid table, s.tables pid = some table →
    pid < kMaxProcesses ∧ ∀ fd, table fd ≠ none → fd < kMaxFdsPerProcess

theorem fileRefs_of_heap (known : s.files.heap a = some file) : s.fileRefs a = file.refCount := by
  simp [fileRefs, known]

theorem entryRefs_of_heap (known : s.entries.heap e = some entry) :
    s.entryRefs e = entry.refCount := by
  simp [entryRefs, known]

theorem count_cons (x y : ℕ) (l : List ℕ) :
    (x :: l).count y = l.count y + if y = x then 1 else 0 := by
  by_cases same : y = x
  · simp [same]
  · simp [same, Ne.symm same]

namespace Counted

section

variable (counted : s.Counted spare held)
include counted

/-- A file that is referred to is in use. -/
theorem exists_file (referred : 0 < s.holders a + spare.count a) :
    ∃ file, s.files.heap a = some file := by
  rw [← counted.fileRefs a] at referred
  cases known : s.files.heap a with
  | none => simp [FdManager.fileRefs, known] at referred
  | some file => exact ⟨file, rfl⟩

/-- An entry that is held is in use. -/
theorem exists_entry (referred : 0 < s.slots e + held.count e) :
    ∃ entry, s.entries.heap e = some entry := by
  rw [← counted.entryRefs e] at referred
  cases known : s.entries.heap e with
  | none => simp [FdManager.entryRefs, known] at referred
  | some entry => exact ⟨entry, rfl⟩

/-- The count of one file changes with the temporaries. -/
theorem with_file {new : Option File} (known : s.files.heap a = some file)
    (heap : files.heap = update s.files.heap a new) (pooled : Pooled { s with files := files })
    (same : ∀ other, new = some other → other.path = file.path)
    (balanced : ∀ b, (if b = a then (new.map (·.refCount)).getD 0 else 0) + spare.count b =
      (if b = a then file.refCount else 0) + spare'.count b) :
    Counted { s with files := files } spare' held where
  pooled := pooled
  fileRefs b := by
    have exact := counted.fileRefs b
    have change := balanced b
    change ((files.heap b).map (·.refCount)).getD 0 = s.holders b + spare'.count b
    rw [heap, update_apply]
    split_ifs at change ⊢ with here
    · rw [here, fileRefs_of_heap known] at exact
      rw [here] at change ⊢
      omega
    · change s.fileRefs b = _
      omega
  entryRefs := counted.entryRefs
  path b c first second here there agree := by
    have origin : ∀ d other, files.heap d = some other →
        ∃ old, s.files.heap d = some old ∧ other.path = old.path := by
      intro d other found
      rw [heap] at found
      rcases of_update found with ⟨rfl, new⟩ | ⟨_, found⟩
      · exact ⟨file, known, same other new⟩
      · exact ⟨other, found, rfl⟩
    obtain ⟨old, found, samePath⟩ := origin b first here
    obtain ⟨old', found', samePath'⟩ := origin c second there
    exact counted.path b c old old' found found' (by rw [← samePath, ← samePath', agree])
  known := counted.known

theorem run_addRefFile (known : s.files.heap a = some file) :
    (s.bumpFile a file).Counted (a :: spare) held := by
  have heap : (s.bumpFile a file).files.heap = update s.files.heap a
      (some { file with refCount := file.refCount + 1 }) := rfl
  refine counted.with_file known heap (counted.pooled.run_addRefFile known).2 (by simp) ?_
  intro b
  rw [count_cons]
  split
  · simp only [Option.map_some, Option.getD_some]
    omega
  · omega

end

/-- A temporary pointer to a file is released. -/
theorem run_releaseFile (counted : s.Counted (a :: spare) held) :
    ∃ file, (releaseFile build a).run s = .ok () (s.dropFile a file) ∧
      (s.dropFile a file).Counted spare held := by
  obtain ⟨file, known⟩ := counted.exists_file (a := a) (by rw [count_cons, if_pos rfl]; omega)
  obtain ⟨returned, pooled⟩ := counted.pooled.run_releaseFile known
  refine ⟨file, returned, counted.with_file known heap_dropFile pooled ?_ ?_⟩
  · intro other found
    split at found
    · exact nomatch found
    · rw [← Option.some.inj found]
  · intro b
    have good := (counted.pooled.files.good a file known).1
    rw [count_cons]
    by_cases last : file.refCount = 1
    · simp only [last, ↓reduceIte, Option.map_none, Option.getD_none]
      split <;> omega
    · simp only [last, ↓reduceIte, Option.map_some, Option.getD_some]
      split <;> omega

section

variable (counted : s.Counted spare held)
include counted

/-- A file is made for a path that is not in use. -/
theorem addFile (pooled : (s.addFile idx rest path).Pooled)
    (fresh : ∀ b other, s.files.heap b = some other → pathKey other.path ≠ pathKey path) :
    (s.addFile idx rest path).Counted (s.files.next :: spare) held := by
  have heap : (s.addFile idx rest path).files.heap =
      update s.files.heap s.files.next (some (newFile path idx)) :=
    heap_add _ _ _ _
  have unused := counted.pooled.files.sound.heap_next
  refine ⟨pooled, ?_, counted.entryRefs, ?_, counted.known⟩
  · intro b
    have exact := counted.fileRefs b
    change (((s.addFile idx rest path).files.heap b).map (·.refCount)).getD 0 =
      s.holders b + (s.files.next :: spare).count b
    rw [heap, count_cons]
    by_cases here : b = s.files.next
    · subst here
      simp only [FdManager.fileRefs, unused, Option.map_none, Option.getD_none] at exact
      simp only [newFile, update_self, Option.map_some, Option.getD_some, ↓reduceIte]
      omega
    · rw [update_of_ne here, if_neg here]
      exact exact
  · intro b c first second here there same
    rw [heap] at here there
    rcases of_update here with ⟨rfl, ⟨⟩⟩ | ⟨_, here⟩
    · rcases of_update there with ⟨rfl, _⟩ | ⟨_, there⟩
      · rfl
      · exact absurd same.symm (fresh c second there)
    · rcases of_update there with ⟨rfl, ⟨⟩⟩ | ⟨_, there⟩
      · exact absurd same (fresh b first here)
      · exact counted.path b c first second here there same

/-- A file is made for a path that is not in use, or the call fails. -/
theorem run_getOrCreate
    (fresh : ∀ b other, s.files.heap b = some other → pathKey other.path ≠ pathKey path) :
    (∃ error, (getOrCreate build path).run s = .ok (.error error) s) ∨
      ∃ a s', (getOrCreate build path).run s = .ok (.ok a) s' ∧
        s'.Counted (a :: spare) held := by
  cases named : path.isEmpty with
  | true => exact .inl ⟨_, Pooled.run_getOrCreate_unnamed named⟩
  | false =>
    have missing := find_eq_none fresh
    cases pool : s.files.pool with
    | nil => exact .inl ⟨_, Pooled.run_getOrCreate_full named missing pool⟩
    | cons idx rest =>
      obtain ⟨returned, pooled⟩ := counted.pooled.run_getOrCreate_new named missing pool
      exact .inr ⟨_, _, returned, counted.addFile pooled fresh⟩

/-- The entries change together with the temporaries. -/
theorem with_entries (pooled : Pooled { s with entries := entries })
    (handles : ∀ a, holders { s with entries := entries } a + spare'.count a =
      s.holders a + spare.count a)
    (refs : ∀ b, ((entries.heap b).map (·.refCount)).getD 0 + held.count b =
      s.entryRefs b + held'.count b) :
    Counted { s with entries := entries } spare' held' where
  pooled := pooled
  fileRefs a := by
    have exact := counted.fileRefs a
    have change := handles a
    change s.fileRefs a = _
    omega
  entryRefs b := by
    have exact := counted.entryRefs b
    have change := refs b
    change ((entries.heap b).map (·.refCount)).getD 0 = s.slots b + held'.count b
    omega
  path := counted.path
  known := counted.known

/-- One entry changes and keeps its handle. -/
theorem put_entry {entry' : OpenFileEntry} (known : s.entries.heap e = some entry)
    (pooled : Pooled { s with entries := s.entries.put e entry' })
    (same : entry'.handle = entry.handle)
    (balanced : ∀ b, (if b = e then entry'.refCount else 0) + held.count b =
      (if b = e then entry.refCount else 0) + held'.count b) :
    Counted { s with entries := s.entries.put e entry' } spare held' := by
  refine counted.with_entries pooled ?_ ?_
  · intro a
    have handles : handleOf { s with entries := s.entries.put e entry' } = s.handleOf := by
      funext b
      unfold handleOf
      rw [heap_put, update_apply]
      split_ifs with here
      · rw [here, known, Option.map_some, Option.map_some, same]
      · rfl
    rw [holders, handles]
    rfl
  · intro b
    have change := balanced b
    rw [heap_put, update_apply]
    split_ifs at change ⊢ with here
    · rw [here, entryRefs_of_heap known]
      exact here ▸ change
    · rw [zero_add, zero_add] at change
      rw [change]
      rfl

end

/-- A reference to an entry is released; the reference of its handle is left to a
temporary if that was the last one. -/
theorem dropEntry (counted : s.Counted spare (e :: held))
    (known : s.entries.heap e = some entry)
    (moved : ∀ a, spare'.count a =
      spare.count a + if entry.refCount = 1 ∧ entry.handle = .file a then 1 else 0) :
    (s.dropEntry e entry).Counted spare' held := by
  have good := counted.pooled.entries.good e entry known
  have inside := counted.pooled.entries.sound.fresh e
    (known ▸ Option.some_ne_none entry)
  have here : s.handleOf e = some entry.handle := by simp [handleOf, known]
  have handles : (s.dropEntry e entry).handleOf = update s.handleOf e
      (if entry.refCount = 1 then none else some entry.handle) := by
    funext b
    rw [handleOf, heap_dropEntry, update_apply, update_apply]
    split_ifs <;> rfl
  refine counted.with_entries (counted.pooled.dropEntry known) ?_ ?_
  · intro a
    have change := count_update (f := s.handleOf) (k := some (.file a))
      (x := if entry.refCount = 1 then none else some entry.handle) (Finset.mem_range.mpr inside)
    have left := moved a
    change (s.dropEntry e entry).holders a + _ = _
    rw [holders, handles, next_dropEntry, left]
    unfold holders
    rw [here] at change
    by_cases last : entry.refCount = 1
    · by_cases own : entry.handle = .file a
      · simp only [last, own, ↓reduceIte, reduceCtorEq, and_self] at change ⊢
        omega
      · simp only [last, own, ↓reduceIte, reduceCtorEq, and_false, Option.some.injEq] at change ⊢
        omega
    · simp only [last, ↓reduceIte, false_and] at change ⊢
      omega
  · intro b
    change (((s.dropEntry e entry).entries.heap b).map (·.refCount)).getD 0 + _ = _
    rw [heap_dropEntry, count_cons]
    by_cases same : b = e
    · subst same
      rw [entryRefs_of_heap known, update_self]
      by_cases last : entry.refCount = 1
      · simp only [last, ↓reduceIte, Option.map_none, Option.getD_none]
        omega
      · simp only [last, ↓reduceIte, Option.map_some, Option.getD_some]
        have := good.1
        omega
    · rw [update_of_ne same, if_neg same]
      rfl

/-- A temporary pointer to an entry is released. -/
theorem run_releaseEntry (counted : s.Counted spare (e :: held)) :
    ∃ s', (releaseEntry build e).run s = .ok () s' ∧ s'.tables = s.tables ∧
      s'.Counted spare held := by
  obtain ⟨entry, known⟩ := counted.exists_entry (e := e) (by rw [count_cons, if_pos rfl]; omega)
  rw [counted.pooled.run_releaseEntry known]
  by_cases last : entry.refCount = 1
  · rw [if_pos last]
    cases handle : entry.handle with
    | null => exact ⟨_, rfl, rfl, counted.dropEntry known (by simp [handle])⟩
    | pipe => exact ⟨_, rfl, rfl, counted.dropEntry known (by simp [handle])⟩
    | file a =>
      have left : (s.dropEntry e entry).Counted (a :: spare) held :=
        counted.dropEntry known (by simp [handle, last, List.count_cons])
      obtain ⟨file, returned, counted⟩ := left.run_releaseFile
      exact ⟨_, returned, rfl, counted⟩
  · rw [if_neg last]
    exact ⟨_, rfl, rfl, counted.dropEntry known (by simp [last])⟩

/-- An entry is made; the reference of its handle was a temporary's. -/
theorem addEntry (counted : s.Counted spare' held) (top : s.entries.pool = idx :: rest)
    (append : isAppend = flags.hasMode kAppend)
    (moved : ∀ a, spare'.count a = spare.count a + if handle = .file a then 1 else 0) :
    (s.addEntry idx rest (newEntryOf handle flags isAppend idx)).Counted spare
      (s.entries.next :: held) := by
  have unused := counted.pooled.entries.sound.heap_next
  have heap : (s.addEntry idx rest (newEntryOf handle flags isAppend idx)).entries.heap =
      update s.entries.heap s.entries.next
        (some (newEntryOf handle flags isAppend idx)) := heap_add _ _ _ _
  have handles : (s.addEntry idx rest (newEntryOf handle flags isAppend idx)).handleOf =
      update s.handleOf s.entries.next (some handle) := by
    funext b
    rw [handleOf, heap, update_apply, update_apply]
    split_ifs <;> rfl
  refine counted.with_entries (counted.pooled.addEntry top append) ?_ ?_
  · intro a
    have blank : s.handleOf s.entries.next = none := by simp [handleOf, unused]
    have grown : count (Finset.range (s.entries.next + 1)) s.handleOf (some (.file a)) =
        s.holders a := by
      refine count_subset (Finset.range_subset_range.mpr (Nat.le_succ _)) ?_
      intro e member outside
      rw [Finset.mem_range] at member outside
      have same : e = s.entries.next := by omega
      rw [same, blank]
      exact nofun
    have change := count_update (S := Finset.range (s.entries.next + 1)) (f := s.handleOf)
      (x := some handle) (k := some (.file a)) (Finset.self_mem_range_succ s.entries.next)
    have left := moved a
    rw [blank] at change
    change (s.addEntry idx rest (newEntryOf handle flags isAppend idx)).holders a + _ = _
    rw [holders, handles]
    change count (Finset.range (s.entries.next + 1)) _ _ + _ = _
    simp only [reduceCtorEq, ↓reduceIte, Option.some.injEq] at change
    omega
  · intro b
    change (((s.addEntry idx rest (newEntryOf handle flags isAppend idx)).entries.heap b).map
      (·.refCount)).getD 0 + _ = _
    rw [heap, count_cons]
    by_cases same : b = s.entries.next
    · subst same
      simp only [update_self, FdManager.entryRefs, unused, newEntryOf, Option.map_some,
        Option.getD_some, Option.map_none, Option.getD_none, ↓reduceIte]
      omega
    · rw [update_of_ne same, if_neg same]
      rfl

/-- A handle that may be put into an entry. -/
def Usable (s : FdManager) : FileHandle → Prop
  | .null => True
  | .file a => ∃ file, s.files.heap a = some file
  | .pipe => True

/-- An entry is made, or the table is full. -/
theorem run_newEntry (counted : s.Counted spare held) (usable : Usable s handle)
    (append : isAppend = flags.hasMode kAppend) :
    (newEntry build handle flags isAppend).run s = .ok (.error .ioError) s ∨
      ∃ e s', (newEntry build handle flags isAppend).run s = .ok (.ok e) s' ∧
        s'.tables = s.tables ∧ s'.Counted spare (e :: held) := by
  cases pool : s.entries.pool with
  | nil => exact .inl (Pooled.run_newEntry_full pool)
  | cons idx rest =>
    refine .inr ?_
    cases handle with
    | null =>
      exact ⟨_, _, counted.pooled.run_newEntry pool default (by simp), rfl,
        counted.addEntry pool append (by simp)⟩
    | pipe =>
      exact ⟨_, _, counted.pooled.run_newEntry pool default (by simp), rfl,
        counted.addEntry pool append (by simp)⟩
    | file a =>
      obtain ⟨file, alive⟩ := usable
      exact ⟨_, _, counted.pooled.run_newEntry pool file
        (fun b same => FileHandle.file.inj same ▸ alive), rfl,
        (counted.run_addRefFile alive).addEntry pool append fun b => by simp [List.count_cons]⟩

theorem slotOf_setSlot (known : s.tables pid = some table) (x : Option ℕ) :
    (s.setSlot pid fd x).slotOf = update s.slotOf (pid, fd) x := by
  funext ⟨p, d⟩
  by_cases same : p = pid
  · subst same
    by_cases here : d = fd
    · subst here
      simp [slotOf, setSlot, known]
    · simp [slotOf, setSlot, known, here]
  · simp [slotOf, setSlot, same]

/-- A slot is written; what it held and holds is a temporary's before or after. -/
theorem setSlot {x : Option ℕ} (counted : s.Counted spare held) (known : s.tables pid = some table)
    (inside : fd < kMaxFdsPerProcess)
    (moved : ∀ e, held'.count e + (if x = some e then 1 else 0) =
      held.count e + if table fd = some e then 1 else 0) :
    Counted (s.setSlot pid fd x) spare held' where
  pooled := ⟨counted.pooled.files, counted.pooled.entries⟩
  fileRefs := counted.fileRefs
  entryRefs e := by
    have member := mem_allSlots.mpr ⟨(counted.known pid table known).1, inside⟩
    have change := count_update (S := allSlots) (f := s.slotOf) (i := (pid, fd)) (x := x)
      (k := some e) member
    have exact := counted.entryRefs e
    have balance := moved e
    have here : s.slotOf (pid, fd) = table fd := by simp [slotOf, known]
    rw [here] at change
    change s.entryRefs e = _
    rw [slots, slotOf_setSlot known]
    unfold slots at exact
    omega
  path := counted.path
  known p other found := by
    by_cases same : p = pid
    · subst same
      simp only [FdManager.setSlot, known, Option.map_some, update_self,
        Option.some.injEq] at found
      subst found
      refine ⟨(counted.known p table known).1, ?_⟩
      intro d taken
      by_cases here : d = fd
      · exact here ▸ inside
      · rw [update_of_ne here] at taken
        exact (counted.known p table known).2 d taken
    · exact counted.known p other (by simpa [FdManager.setSlot, same] using found)

/-- A temporary pointer is moved into an empty slot. -/
theorem store (counted : s.Counted spare (e :: held)) (known : s.tables pid = some table)
    (inside : fd < kMaxFdsPerProcess) (empty : table fd = none) :
    Counted (s.setSlot pid fd (some e)) spare held := by
  refine counted.setSlot known inside ?_
  simp [empty, List.count_cons]

/-- A slot's pointer is moved into a temporary. -/
theorem take (counted : s.Counted spare held) (known : s.tables pid = some table)
    (here : table fd = some e) :
    Counted (s.setSlot pid fd none) spare (e :: held) := by
  have inside := (counted.known pid table known).2 fd (here ▸ Option.some_ne_none e)
  refine counted.setSlot known inside ?_
  simp [here, List.count_cons]

end Counted

end AlkOS.Fs.FdManager
