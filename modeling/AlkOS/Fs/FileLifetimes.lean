import AlkOS.Fs.FileReferences

/-!
# Lifetimes of open files

Along every run of calls that opens no path that is open already, files and
entries are in use exactly as long as they are referred to. Opening a path again
adopts the file without counting the reference.
-/

namespace AlkOS.Fs.FdManager

open Kernel Containers Vfs Occurrences Relation Function OpenMode
open PooledHashMap (run_deref run_update heap_put_self)

variable {s s' : FdManager} {build : Build} {spare held : List ℕ} {a b e pid fd : ℕ} {α : Type}
  {file : File} {entry : OpenFileEntry} {path : Path} {flags : OpenMode} {table : FdTable} {d : ℤ}

/-- A file in use has the path. -/
def InUse (s : FdManager) (path : Path) : Prop :=
  ∃ a file, s.files.heap a = some file ∧ pathKey file.path = pathKey path

theorem freeFd_eq_some (found : freeFd table = some fd) :
    fd < kMaxFdsPerProcess ∧ table fd = none := by
  refine ⟨List.mem_range.mp (List.mem_of_find?_eq_some found), ?_⟩
  have empty := List.find?_some (p := fun fd => (table fd).isNone) found
  exact Option.isNone_iff_eq_none.mp empty

/-- A computation returns and leaves every reference counted. -/
def Keeps (s : FdManager) (run : Kernel FdManager α) : Prop :=
  ∃ value s', EStateM.run run s = .ok value s' ∧ s'.Counted [] []

namespace Keeps

variable {value : α}

theorem pure (counted : s.Counted [] []) : Keeps s (pure value) := ⟨value, s, rfl, counted⟩

theorem bind {β : Type} {first : Kernel FdManager α} {rest : α → Kernel FdManager β}
    (returned : EStateM.run first s = .ok value s') (keeps : Keeps s' (rest value)) :
    Keeps s (first >>= rest) := by
  obtain ⟨result, s'', returned', counted⟩ := keeps
  exact ⟨result, s'', (run_bind returned).trans returned', counted⟩

theorem ite {condition : Prop} [Decidable condition] {left right : Kernel FdManager α}
    (first : condition → Keeps s left) (second : ¬ condition → Keeps s right) :
    Keeps s (if condition then left else right) := by
  split_ifs with holds
  · exact first holds
  · exact second holds

end Keeps

namespace Counted

/-- A descriptor takes over the temporary pointer. -/
theorem run_allocateFd (counted : s.Counted spare [e]) :
    ∃ result s', (allocateFd build pid e).run s = .ok result s' ∧
      s'.Counted spare [] := by
  unfold allocateFd
  rw [run_get_bind]
  cases known : s.tables pid with
  | none =>
    obtain ⟨s', returned, _, counted⟩ := counted.run_releaseEntry
    exact ⟨_, s', run_bind returned, counted⟩
  | some table =>
    cases free : freeFd table with
    | none =>
      obtain ⟨s', returned, _, counted⟩ := counted.run_releaseEntry
      simp only [free]
      exact ⟨_, s', run_bind returned, counted⟩
    | some fd =>
      obtain ⟨inside, empty⟩ := freeFd_eq_some free
      simp only [free]
      exact ⟨_, _, rfl, counted.store known inside empty⟩

theorem run_openOn (counted : s.Counted [a] []) :
    ∃ result s', (openOn build pid a flags).run s = .ok result s' ∧
      s'.Counted [a] [] := by
  have usable : Usable s (.file a) := counted.exists_file (by simp)
  unfold openOn openFile
  rcases counted.run_newEntry usable rfl with full | ⟨e, s', returned, _, counted'⟩
  · rw [run_bind full]
    exact ⟨_, s, rfl, counted⟩
  · rw [run_bind returned]
    exact counted'.run_allocateFd

/-- A path that is not in use is opened, or the call fails. -/
theorem keeps_open (counted : s.Counted [] [])
    (fresh : s.contents (pathKey path) ≠ none → ¬ s.InUse path) :
    Keeps s («open» build pid path flags) := by
  refine .bind rfl (.ite (fun _ => .pure counted) fun found => ?_)
  have fresh := fresh fun missing => found (by rw [missing]; rfl)
  rcases counted.run_getOrCreate fun b other known same => fresh ⟨b, other, known, same⟩ with
    ⟨error, returned⟩ | ⟨a, files, returned, counted⟩
  · exact .bind returned (.pure counted)
  · obtain ⟨result, s', opened, counted⟩ := counted.run_openOn
    obtain ⟨files', released, counted⟩ := counted.run_releaseFile
    exact .bind returned (.bind opened (.bind released (.pure counted)))

/-- A slot is emptied. -/
theorem run_resetSlot (counted : s.Counted [] []) :
    ∃ s', (resetSlot build pid fd).run s = .ok () s' ∧ s'.Counted [] [] ∧
      s'.tables = (s.setSlot pid fd none).tables := by
  unfold resetSlot
  rw [run_get_bind]
  cases known : s.tables pid with
  | none =>
    refine ⟨s, rfl, counted, ?_⟩
    simp [FdManager.setSlot, known]
  | some table =>
    cases here : table fd with
    | none =>
      simp only [Option.bind_some, here]
      refine ⟨s, rfl, counted, ?_⟩
      simp [FdManager.setSlot, known, ← here]
    | some e =>
      simp only [Option.bind_some, here]
      obtain ⟨s', returned, tables, counted⟩ := (counted.take known here).run_releaseEntry
      exact ⟨s', returned, counted, tables⟩

/-- A slot holds an entry in use. -/
theorem entry_of_slot (counted : s.Counted spare held) (known : s.tables pid = some table)
    (here : table fd = some e) :
    ∃ entry, s.entries.heap e = some entry := by
  have inside := (counted.known pid table known).2 fd (here ▸ Option.some_ne_none e)
  have member := mem_allSlots.mpr ⟨(counted.known pid table known).1, inside⟩
  have taken : 0 < s.slots e :=
    count_pos_iff.mpr ⟨(pid, fd), member, by simp [slotOf, known, here]⟩
  exact counted.exists_entry (by omega)

section

variable (counted : s.Counted [] [])
include counted

/-- `Close` keeps the counts. -/
theorem keeps_close : Keeps s (close build pid d) := by
  refine .bind rfl ?_
  cases known : s.tables pid with
  | none => exact .pure counted
  | some table =>
    refine .ite (fun _ => .pure counted) fun _ => ?_
    cases here : table d.toNat with
    | none => exact .pure counted
    | some e =>
      obtain ⟨entry, alive⟩ := counted.entry_of_slot known here
      obtain ⟨s', returned, counted', _⟩ := counted.run_resetSlot
      exact .bind (run_onEntries (run_deref alive))
        (.ite (fun _ => .pure counted) fun _ => .bind returned (.pure counted'))

/-- A pointer is copied into an empty slot. -/
theorem run_copySlot (known : s.tables pid = some table) (inside : fd < kMaxFdsPerProcess)
    (empty : table fd = none) (alive : s.entries.heap e = some entry) :
    ∃ s', (copySlot pid fd e).run s = .ok () s' ∧ s'.Counted [] [] := by
  obtain ⟨returned, pooled⟩ := counted.pooled.run_addRefEntry alive
  have added : (s.bumpEntry e entry).Counted [] [e] := by
    refine counted.put_entry alive pooled rfl ?_
    intro b
    rw [count_cons]
    split <;> simp
  refine ⟨_, ?_, added.store known inside empty⟩
  unfold copySlot
  rw [run_bind returned]
  rfl

/-- `Duplicate` keeps the counts. -/
theorem keeps_duplicate : Keeps s (duplicate pid d) := by
  refine .bind rfl ?_
  cases known : s.tables pid with
  | none => exact .pure counted
  | some table =>
    refine .ite (fun _ => .pure counted) fun _ => ?_
    cases here : table d.toNat with
    | none => exact .pure counted
    | some e =>
      obtain ⟨entry, alive⟩ := counted.entry_of_slot known here
      cases free : freeFd table with
      | none => exact .pure counted
      | some fd =>
        obtain ⟨inside, empty⟩ := freeFd_eq_some free
        obtain ⟨s', returned, counted⟩ := counted.run_copySlot known inside empty alive
        exact .bind returned (.pure counted)

/-- `Duplicate(old_fd, new_fd)` keeps the counts. -/
theorem keeps_duplicateTo {d d' : ℤ} : Keeps s (duplicateTo build pid d d') := by
  refine .bind rfl ?_
  cases known : s.tables pid with
  | none => exact .pure counted
  | some table =>
    refine .ite (fun _ => .pure counted) fun valid => .ite (fun _ => .pure counted) fun valid' => ?_
    cases here : table d.toNat with
    | none => exact .pure counted
    | some e =>
      obtain ⟨s', returned, counted', tables⟩ := counted.run_resetSlot
      refine .bind returned (.ite (fun apart => ?_) fun _ => .pure counted')
      simp only [isValidFd, Bool.not_eq_true, Bool.not_eq_false', Bool.and_eq_true,
        decide_eq_true_eq] at valid valid'
      have apart : d.toNat ≠ d'.toNat := by omega
      have known' : s'.tables pid = some (update table d'.toNat none) := by
        simp [tables, FdManager.setSlot, known]
      obtain ⟨entry, alive⟩ := counted'.entry_of_slot known'
        ((update_of_ne apart none table).trans here)
      obtain ⟨s'', returned, counted''⟩ := counted'.run_copySlot known' (by omega)
        (update_self d'.toNat none table) alive
      exact .bind returned (.pure counted'')

end

section

variable (counted : s.Counted [] [])
include counted

/-- The slots of a process are emptied one after the other. -/
theorem run_resetSlots (build : Build) (pid : ℕ) (fds : List ℕ) :
    ∃ s', (fds.forM (resetSlot build pid)).run s = .ok () s' ∧ s'.Counted [] [] ∧
      ∀ fd, s'.slotOf (pid, fd) ≠ none → s.slotOf (pid, fd) ≠ none ∧ fd ∉ fds := by
  induction fds generalizing s with
  | nil => exact ⟨s, rfl, counted, fun fd taken => ⟨taken, List.not_mem_nil⟩⟩
  | cons first rest ih =>
    obtain ⟨s', returned, counted', tables⟩ : ∃ s',
        (resetSlot build pid first).run s = .ok () s' ∧ s'.Counted [] [] ∧
          s'.tables = (s.setSlot pid first none).tables := counted.run_resetSlot
    obtain ⟨s'', returned', counted'', kept⟩ := ih counted'
    refine ⟨s'', (run_bind returned).trans returned', counted'', fun fd taken => ?_⟩
    obtain ⟨before, outside⟩ := kept fd taken
    simp only [slotOf, tables, FdManager.setSlot] at before
    cases known : s.tables pid with
    | none => simp [known] at before
    | some table =>
      have apart : fd ≠ first := fun same => by simp [same] at before
      exact ⟨by simpa [slotOf, apart] using before, by simp [apart, outside]⟩

/-- A table without descriptors comes or goes. -/
theorem set_table {new : Option FdTable} (empty : ∀ fd, s.slotOf (pid, fd) = none)
    (blank : ∀ table, new = some table → pid < kMaxProcesses ∧ ∀ fd, table fd = none) :
    Counted { s with tables := update s.tables pid new } [] [] where
  pooled := ⟨counted.pooled.files, counted.pooled.entries⟩
  fileRefs := counted.fileRefs
  entryRefs e := by
    have same : slotOf { s with tables := update s.tables pid new } = s.slotOf := by
      funext ⟨p, fd⟩
      by_cases here : p = pid
      · subst here
        rw [empty fd]
        cases found : new with
        | none => simp [slotOf]
        | some table => simp [slotOf, (blank table found).2]
      · simp [slotOf, here]
    rw [slots, same]
    exact counted.entryRefs e
  path := counted.path
  known p table found := by
    by_cases here : p = pid
    · subst here
      have found : new = some table := by simpa using found
      exact ⟨(blank table found).1, fun fd taken => absurd ((blank table found).2 fd) taken⟩
    · exact counted.known p table (by simpa [here] using found)

/-- A table is destroyed. -/
theorem run_destroyTable : ∃ s', (destroyTable build pid).run s = .ok () s' ∧ s'.Counted [] [] := by
  obtain ⟨s', returned, counted', kept⟩ :=
    counted.run_resetSlots build pid (List.range kMaxFdsPerProcess).reverse
  refine ⟨_, run_bind returned, counted'.set_table (fun fd => ?_) nofun⟩
  by_contra taken
  have outside := (kept fd taken).2
  rw [List.mem_reverse, List.mem_range] at outside
  obtain ⟨e, found⟩ := Option.ne_none_iff_exists'.mp taken
  obtain ⟨table, known, here⟩ := Option.bind_eq_some_iff.mp found
  exact outside ((counted'.known pid table known).2 fd (here ▸ Option.some_ne_none e))

/-- Opening a standard pipe keeps the counts. -/
theorem run_openStdio (inside : fd < kMaxFdsPerProcess) :
    ∃ done s', (openStdio build pid fd).run s = .ok done s' ∧ s'.Counted [] [] := by
  have usable : Usable s .pipe := trivial
  have append : false = kReadWrite.hasMode kAppend := by decide
  unfold openStdio openPipe
  rcases counted.run_newEntry usable append with full | ⟨e, s', returned, _, counted'⟩
  · rw [run_bind full]
    exact ⟨_, s, rfl, counted⟩
  · rw [run_bind returned]
    simp only [allocateAt]
    rw [run_get_bind]
    by_cases room : ((s'.tables pid).map fun table => (table fd).isNone) = some true
    · rw [if_pos room]
      obtain ⟨table, known, empty⟩ := Option.map_eq_some_iff.mp room
      exact ⟨_, _, rfl, counted'.store known inside (Option.isNone_iff_eq_none.mp empty)⟩
    · rw [if_neg room]
      obtain ⟨s'', returned, _, counted''⟩ := counted'.run_releaseEntry
      exact ⟨_, s'', run_bind returned, counted''⟩

end

theorem keeps_openStdioAll (fds : List ℕ) (inside : ∀ fd ∈ fds, fd < kMaxFdsPerProcess)
    (counted : s.Counted [] []) : Keeps s (openStdioAll build pid fds) := by
  induction fds generalizing s with
  | nil => exact ⟨_, s, rfl, counted⟩
  | cons first rest ih =>
    obtain ⟨done, s', returned, counted'⟩ :=
      counted.run_openStdio (inside first List.mem_cons_self)
    refine .bind returned ?_
    cases done with
    | true => exact ih (fun fd member => inside fd (List.mem_cons_of_mem first member)) counted'
    | false =>
      obtain ⟨s'', returned, counted''⟩ := counted'.run_destroyTable
      exact .bind returned (.pure counted'')

theorem keeps_prepareTable (counted : s.Counted [] []) (room : pid < kMaxProcesses)
    (fresh : s.tables pid = none) : Keeps s (prepareTable build pid) := by
  have blank : Counted { s with tables := update s.tables pid (some fun _ => none) }
      [] [] := by
    refine counted.set_table (by simp [slotOf, fresh]) ?_
    intro table same
    exact ⟨room, fun fd => by rw [← Option.some.inj same]⟩
  exact keeps_openStdioAll [0, 1, 2] (by decide) blank

theorem with_contents (counted : s.Counted spare held)
    (contents : PathKey → Option (List UInt8)) :
    Counted { s with contents := contents } spare held :=
  ⟨⟨counted.pooled.files, counted.pooled.entries⟩, counted.fileRefs, counted.entryRefs,
    counted.path, counted.known⟩

/-- The offset of an entry is moved. -/
theorem with_offset (counted : s.Counted [] []) (alive : s.entries.heap e = some entry)
    (offset : ℕ) :
    Counted { s with entries := s.entries.put e { entry with offset := offset } } [] [] :=
  counted.put_entry alive (counted.pooled.with_offset alive offset) rfl fun _ => rfl

/-- The file of a handle is in use. -/
theorem file_of_handle (counted : s.Counted spare held) (alive : s.entries.heap e = some entry)
    (handle : entry.handle = .file a) : ∃ file, s.files.heap a = some file := by
  have inside := counted.pooled.entries.sound.fresh e (alive ▸ Option.some_ne_none entry)
  have taken : 0 < s.holders a :=
    count_pos_iff.mpr ⟨e, Finset.mem_range.mpr inside, by simp [handleOf, alive, handle]⟩
  exact counted.exists_file (by omega)

variable (counted : s.Counted [] []) (running : s.tables pid ≠ none)
include counted running

/-- The entry of a descriptor is none or in use. -/
theorem run_entryOf :
    (entryOf pid d).run s = .ok none s ∨
      ∃ e entry, (entryOf pid d).run s = .ok (some e) s ∧
        s.entries.heap e = some entry := by
  obtain ⟨table, known⟩ := Option.ne_none_iff_exists'.mp running
  unfold entryOf
  rw [run_get_bind, known]
  by_cases valid : isValidFd d = true
  · cases here : table d.toNat with
    | none =>
      refine .inl ?_
      simp only [valid, here]
      rfl
    | some e =>
      obtain ⟨entry, alive⟩ := counted.entry_of_slot known here
      refine .inr ⟨e, entry, ?_, alive⟩
      simp only [valid, here]
      rfl
  · refine .inl ?_
    simp only [valid]
    rfl

/-- `Seek` keeps the counts. -/
theorem keeps_seek {d delta : ℤ} {whence : FdSeek} : Keeps s (seek pid d delta whence) := by
  rcases counted.run_entryOf running with none | ⟨e, entry, found, alive⟩
  · exact .bind none (.pure counted)
  · refine .bind found (.bind (run_onEntries (run_deref alive)) ?_)
    cases handle : entry.handle with
    | null => exact .pure counted
    | pipe => exact .pure counted
    | file a =>
      obtain ⟨file, known⟩ := counted.file_of_handle alive handle
      exact .bind (run_onFiles (run_deref known))
        (.bind (run_onEntries (run_update _ alive))
          (.pure (counted.with_offset alive _)))

/-- `Read` keeps the counts. -/
theorem keeps_read {count : ℕ} : Keeps s (read pid d count) := by
  refine .ite (fun _ => .pure counted) fun _ => ?_
  rcases counted.run_entryOf running with none | ⟨e, entry, found, alive⟩
  · exact .bind none (.pure counted)
  · refine .bind found (.bind (run_onEntries (run_deref alive))
      (.ite (fun _ => .pure counted) fun _ => ?_))
    cases handle : entry.handle with
    | null => exact .pure counted
    | pipe => exact .pure counted
    | file a =>
      obtain ⟨file, known⟩ := counted.file_of_handle alive handle
      refine .bind (run_onFiles (run_deref known)) (.bind rfl ?_)
      cases bytes : s.contents (pathKey file.path) with
      | none => exact .pure counted
      | some bytes =>
        exact .bind (run_onEntries (run_update _ alive))
          (.pure (counted.with_offset alive _))

/-- `Write` keeps the counts. -/
theorem keeps_write {buffer : List UInt8} : Keeps s (write pid d buffer) := by
  refine .ite (fun _ => .pure counted) fun _ => ?_
  rcases counted.run_entryOf running with none | ⟨e, entry, found, alive⟩
  · exact .bind none (.pure counted)
  · refine .bind found (.bind (run_onEntries (run_deref alive))
      (.ite (fun _ => .pure counted) fun _ => ?_))
    cases handle : entry.handle with
    | null => exact .pure counted
    | pipe => exact .pure counted
    | file a =>
      obtain ⟨file, known⟩ := counted.file_of_handle alive handle
      have moved := counted.with_offset alive
        (if entry.isAppend = true then file.size else entry.offset)
      refine .bind (run_onFiles (run_deref known))
        (.bind (run_onEntries (run_update _ alive)) (.bind rfl ?_))
      cases bytes : s.contents (pathKey file.path) with
      | none => exact .pure moved
      | some bytes =>
        exact .bind rfl
          (.bind (run_onEntries (run_update _ heap_put_self))
            (.pure ((moved.with_contents _).with_offset heap_put_self _)))

end Counted

/-- A call, or a change of the files by other users of the file system. -/
inductive Call where
  | «open» (pid : ℕ) (path : Path) (flags : OpenMode)
  | close (pid : ℕ) (fd : ℤ)
  | duplicate (pid : ℕ) (fd : ℤ)
  | duplicateTo (pid : ℕ) (oldFd newFd : ℤ)
  | read (pid : ℕ) (fd : ℤ) (count : ℕ)
  | write (pid : ℕ) (fd : ℤ) (buffer : List UInt8)
  | seek (pid : ℕ) (fd delta : ℤ) (whence : FdSeek)
  | prepare (pid : ℕ)
  | teardown (pid : ℕ)
  | vfs (contents : PathKey → Option (List UInt8))

namespace Call

/-- What a call does, apart from the value it returns. -/
def perform (build : Build) : Call → Kernel FdManager Unit
  | «open» pid path flags => do let _ ← FdManager.open build pid path flags
  | close pid fd => do let _ ← FdManager.close build pid fd
  | duplicate pid fd => do let _ ← FdManager.duplicate pid fd
  | duplicateTo pid oldFd newFd => do let _ ← FdManager.duplicateTo build pid oldFd newFd
  | read pid fd count => do let _ ← FdManager.read pid fd count
  | write pid fd buffer => do let _ ← FdManager.write pid fd buffer
  | seek pid fd delta whence => do let _ ← FdManager.seek pid fd delta whence
  | prepare pid => do let _ ← prepareTable build pid
  | teardown pid => destroyTable build pid
  | vfs contents => modify fun manager => { manager with contents := contents }

/-- Processes get numbers that are not taken, and have tables when they read, write or seek. -/
def Permitted (s : FdManager) : Call → Prop
  | read pid _ _ => s.tables pid ≠ none
  | write pid _ _ => s.tables pid ≠ none
  | seek pid _ _ _ => s.tables pid ≠ none
  | prepare pid => pid < kMaxProcesses ∧ s.tables pid = none
  | _ => True

/-- No path is opened that is open already. -/
def Proper (s : FdManager) : Call → Prop
  | «open» _ path _ => s.contents (pathKey path) ≠ none → ¬ s.InUse path
  | _ => True

end Call

/-- A proper call is made and returns. -/
def Performs (build : Build) (s s' : FdManager) : Prop :=
  ∃ call : Call, call.Permitted s ∧ call.Proper s ∧
    (call.perform build).run s = .ok () s'

/-- Counts are exact, and what is counted is in use. -/
structure Exact (s : FdManager) : Prop where
  file : ∀ a file, s.files.heap a = some file → file.refCount = s.holders a
  entry : ∀ e entry, s.entries.heap e = some entry → entry.refCount = s.slots e
  fileUsed : ∀ a, s.files.heap a ≠ none ↔ 0 < s.holders a
  entryUsed : ∀ e, s.entries.heap e ≠ none ↔ 0 < s.slots e
  handle : ∀ e a, s.handleOf e = some (.file a) → s.files.heap a ≠ none
  path : ∀ a b file other, s.files.heap a = some file → s.files.heap b = some other →
    pathKey file.path = pathKey other.path → a = b
  filePool : ∀ i, i ∈ s.files.pool ↔ i < kMaxActiveFiles ∧ s.files.map i = none
  entryPool : ∀ i, i ∈ s.entries.pool ↔ i < kMaxOpenFiles ∧ s.entries.map i = none

namespace Counted

/-- References without temporaries are exact. -/
theorem exact (counted : s.Counted [] []) : s.Exact where
  file a file known := by
    have refs := counted.fileRefs a
    rw [fileRefs_of_heap known] at refs
    simpa using refs
  entry e entry known := by
    have refs := counted.entryRefs e
    rw [entryRefs_of_heap known] at refs
    simpa using refs
  fileUsed a := by
    have refs := counted.fileRefs a
    constructor
    · intro used
      obtain ⟨file, known⟩ := Option.ne_none_iff_exists'.mp used
      rw [fileRefs_of_heap known] at refs
      have positive := (counted.pooled.files.good a file known).1
      simp only [List.count_nil] at refs
      omega
    · intro taken
      obtain ⟨file, known⟩ := counted.exists_file (a := a) (by omega)
      exact known ▸ Option.some_ne_none file
  entryUsed e := by
    have refs := counted.entryRefs e
    constructor
    · intro used
      obtain ⟨entry, known⟩ := Option.ne_none_iff_exists'.mp used
      rw [entryRefs_of_heap known] at refs
      have positive := (counted.pooled.entries.good e entry known).1
      simp only [List.count_nil] at refs
      omega
    · intro taken
      obtain ⟨entry, known⟩ := counted.exists_entry (e := e) (by omega)
      exact known ▸ Option.some_ne_none entry
  handle e a found := by
    obtain ⟨entry, alive, handle⟩ := Option.map_eq_some_iff.mp found
    obtain ⟨file, known⟩ := counted.file_of_handle alive handle
    exact known ▸ Option.some_ne_none file
  path := counted.path
  filePool := counted.pooled.files.sound.mem_pool
  entryPool := counted.pooled.entries.sound.mem_pool

/-- Nothing is referred to at first. -/
theorem initial (contents : PathKey → Option (List UInt8)) :
    Counted (FdManager.initial contents) [] [] where
  pooled := Pooled.initial contents
  fileRefs a := rfl
  entryRefs e := by
    have none : ¬ 0 < (FdManager.initial contents).slots e := fun taken => by
      obtain ⟨slot, _, found⟩ := count_pos_iff.mp taken
      exact nomatch found
    have unused : (FdManager.initial contents).entryRefs e = 0 := rfl
    rw [List.count_nil]
    omega
  path a b file other known := nomatch known
  known pid table found := nomatch found

end Counted

theorem Keeps.discard {run : Kernel FdManager α} (keeps : Keeps s run) :
    ∃ s', (do let _ ← run).run s = .ok () s' ∧ s'.Counted [] [] := by
  obtain ⟨value, s', returned, counted⟩ := keeps
  exact ⟨s', run_bind returned, counted⟩

/-- A proper call returns and keeps every reference counted. -/
theorem Counted.step {call : Call} (counted : s.Counted [] []) (permitted : call.Permitted s)
    (proper : call.Proper s) :
    ∃ s', (call.perform build).run s = .ok () s' ∧ s'.Counted [] [] := by
  cases call with
  | «open» pid path flags => exact (counted.keeps_open proper).discard
  | close pid fd => exact counted.keeps_close.discard
  | duplicate pid fd => exact counted.keeps_duplicate.discard
  | duplicateTo pid oldFd newFd => exact counted.keeps_duplicateTo.discard
  | read pid fd count => exact (counted.keeps_read permitted).discard
  | write pid fd buffer => exact (counted.keeps_write permitted).discard
  | seek pid fd delta whence => exact (counted.keeps_seek permitted).discard
  | prepare pid => exact (counted.keeps_prepareTable permitted.1 permitted.2).discard
  | teardown pid => exact counted.run_destroyTable
  | vfs contents => exact ⟨_, rfl, counted.with_contents contents⟩

theorem counted_of_run {contents : PathKey → Option (List UInt8)}
    (run : ReflTransGen (Performs build) (FdManager.initial contents) s) : s.Counted [] [] := by
  induction run with
  | refl => exact Counted.initial contents
  | tail _ performs counted =>
    obtain ⟨call, permitted, proper, returned⟩ := performs
    obtain ⟨s', returned', counted'⟩ := counted.step permitted proper
    cases returned.symm.trans returned'
    exact counted'

/-- Along every run of proper calls the counts are exact, and every proper call
returns. -/
theorem exact_of_run {contents : PathKey → Option (List UInt8)}
    (run : ReflTransGen (Performs build) (FdManager.initial contents) s) :
    s.Exact ∧ ∀ call : Call, call.Permitted s → call.Proper s →
      ∃ s', (call.perform build).run s = .ok () s' := by
  have counted := counted_of_run run
  refine ⟨counted.exact, ?_⟩
  intro call permitted proper
  obtain ⟨s', returned, _⟩ := counted.step permitted proper
  exact ⟨s', returned⟩

/-- The state after a sequence of calls. -/
def after (build : Build) (s : FdManager) : List Call → FdManager
  | [] => s
  | call :: rest =>
    match (call.perform build).run s with
    | .ok _ s' => after build s' rest
    | .error _ s' => s'

/-- One file, `/A`, of one byte. -/
def oneFile : PathKey → Option (List UInt8) := fun key =>
  if key = (true, [[65]]) then some [7] else none

/-- The path `/A`. -/
def pathA : Path := Path.parse [47, 65]

theorem performs_after {call : Call} (permitted : call.Permitted s) (proper : call.Proper s)
    (returned : outcome ((call.perform build).run s) = some ()) :
    Performs build s (after build s [call]) := by
  obtain ⟨s', here⟩ := eq_ok_of_outcome returned
  exact ⟨call, permitted, proper, by simp only [after, here]⟩

/-- A file table from which nothing was ever taken has no path in use. -/
theorem Counted.not_inUse (counted : s.Counted [] []) (unused : s.files.next = 0) :
    ¬ s.InUse path := by
  intro ⟨a, file, known, _⟩
  have taken := counted.pooled.files.sound.fresh a (known ▸ Option.some_ne_none file)
  omega

/-- `/A` is opened once. -/
theorem exact_of_run_opened :
    (after .debug (after .debug (FdManager.initial oneFile) [.prepare 0])
        [.open 0 pathA kRead]).Exact ∧
      (after .debug (after .debug (FdManager.initial oneFile) [.prepare 0])
        [.open 0 pathA kRead]).holders 0 = 1 := by
  have first : Performs .debug (FdManager.initial oneFile)
      (after .debug (FdManager.initial oneFile) [.prepare 0]) :=
    performs_after ⟨by decide, rfl⟩ trivial (by decide +kernel)
  have counted := counted_of_run (.single first)
  have second : Performs .debug (after .debug (FdManager.initial oneFile) [.prepare 0])
      (after .debug (after .debug (FdManager.initial oneFile) [.prepare 0])
        [.open 0 pathA kRead]) :=
    performs_after trivial (fun _ => counted.not_inUse (by decide +kernel)) (by decide +kernel)
  exact ⟨(exact_of_run ((ReflTransGen.single first).tail second)).1, by decide +kernel⟩

/-- `/A` is opened twice and closed once: the file is freed while an entry refers to it. -/
theorem not_exact_of_second_open :
    (after .debug (FdManager.initial oneFile) [.prepare 0, .open 0 pathA kRead,
        .open 0 pathA kRead, .close 0 3]).handleOf 4 = some (.file 0) ∧
      ((after .debug (FdManager.initial oneFile) [.prepare 0, .open 0 pathA kRead,
        .open 0 pathA kRead, .close 0 3]).files.heap 0).isNone = true ∧
      ¬ (after .debug (FdManager.initial oneFile) [.prepare 0, .open 0 pathA kRead,
        .open 0 pathA kRead, .close 0 3]).Exact := by
  have dangling : (after .debug (FdManager.initial oneFile) [.prepare 0,
      .open 0 pathA kRead, .open 0 pathA kRead, .close 0 3]).handleOf 4 =
        some (.file 0) := by decide +kernel
  have freed : ((after .debug (FdManager.initial oneFile) [.prepare 0,
      .open 0 pathA kRead, .open 0 pathA kRead, .close 0 3]).files.heap
        0).isNone = true := by decide +kernel
  exact ⟨dangling, freed, fun exact =>
    exact.handle 4 0 dangling (Option.isNone_iff_eq_none.mp freed)⟩

end AlkOS.Fs.FdManager
