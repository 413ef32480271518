import AlkOS.Fs.Fat.Writing

/-!
# Reading files and directories

What `GetFileSize`, `ReadFile` and `ListDirectory` return on a well-formed volume,
in terms of the entry or the directory that the path denotes.
-/

namespace AlkOS.Fat.Volume

open Kernel Vfs

variable {v : Volume} {disk disk' : Bytes} {c c' j p size offset : ℕ}
  {entry entry' : DirectoryEntry} {path : Path} {result : PathLookupResult}

/-- `LookupPath_` finds what a path denotes. -/
theorem Sound.lookupPath_of_denotes (sound : v.Sound) (readable : v.RootReadable)
    (formed : v.WellFormed disk) (valid : path.Valid)
    (denotes : v.Denotes disk v.rootCluster (names path.components) p j entry) :
    v.lookupPath disk path = .ok (some ⟨entry, p, j * kEntrySize⟩) := by
  have nonempty : path.components ≠ [] := by
    intro nothing
    rw [nothing] at denotes
    exact denotes.ne_nil rfl
  rw [lookupPath_eq valid nonempty]
  exact sound.walkFromRoot_of_denotes readable formed denotes

theorem run_lookup {found : Option PathLookupResult} (lookup : v.lookupPath disk path = .ok found) :
    (reading fun disk => v.lookupPath disk path).run disk = .ok found disk := by
  apply run_reading_of_ok
  exact lookup

/-- The bytes of a range of a file. -/
def fileRange (v : Volume) (disk : Bytes) (entry : DirectoryEntry) (offset size : ℕ) :
    List UInt8 :=
  v.range disk (v.objectBlocks disk entry) offset size

theorem length_fileRange : (v.fileRange disk entry offset size).length = size := by
  rw [fileRange, range, List.length_map, List.length_range']

theorem getElem?_fileRange {i : ℕ} (inside : i < size) :
    (v.fileRange disk entry offset size)[i]? = some (v.fileByte disk entry (offset + i)) := by
  rw [fileRange, range, List.getElem?_map, List.getElem?_range' inside, Nat.one_mul]
  rfl

theorem getFileSize_of_lookup (found : v.lookupPath disk path = .ok (some result))
    (file : result.entry.isFile = true) :
    v.getFileSize disk path = .ok (.ok result.entry.fileSize.toNat) := by
  unfold getFileSize
  rw [found]
  change (if !result.entry.isFile then _ else _) = _
  rw [file]
  rfl

/-- `ReadFile` returns a range of the file that is found. -/
theorem Sound.readFile_of_lookup (sound : v.Sound)
    (found : v.lookupPath disk path = .ok (some result)) (file : result.entry.isFile = true)
    (fine : v.FileSound disk result.entry) (positive : size ≠ 0) :
    v.readFile disk path size offset =
      .ok (.ok (v.fileRange disk result.entry offset
        (min size (result.entry.fileSize.toNat - offset)))) := by
  unfold readFile
  rw [if_neg positive, found]
  change (if !result.entry.isFile then _ else _) = _
  rw [file]
  by_cases beyond : offset ≥ result.entry.fileSize.toNat
  · rw [if_pos beyond, Nat.sub_eq_zero_of_le beyond, Nat.min_zero]
    rfl
  · rw [if_neg beyond]
    have chain := fine.1.resolve_left fun none => by
      have room := fine.2
      rw [objectBlocks, if_pos ⟨file, none⟩, List.length_nil] at room
      omega
    rw [sound.readFileData_eq chain fine.2 size (not_le.mp beyond)]
    rfl

/-- Size and bytes of the file a path denotes. -/
theorem Sound.reads_of_denotes (sound : v.Sound) (readable : v.RootReadable)
    (formed : v.WellFormed disk) (valid : path.Valid)
    (denotes : v.Denotes disk v.rootCluster (names path.components) p j entry)
    (file : entry.isFile = true) :
    v.getFileSize disk path = .ok (.ok entry.fileSize.toNat) ∧
      ∀ {size offset : ℕ}, size ≠ 0 → v.readFile disk path size offset =
        .ok (.ok (v.fileRange disk entry offset (min size (entry.fileSize.toNat - offset)))) := by
  have found := sound.lookupPath_of_denotes readable formed valid denotes
  have fine := formed.file _ _ _ (denotes.listed (Directory.root v disk) (.inl file)) file
  refine ⟨getFileSize_of_lookup found file, fun positive => ?_⟩
  rw [sound.readFile_of_lookup found file fine positive]

/-- What `ListDirectory` reports of an entry. -/
def shown (entry : DirectoryEntry) : Option (List UInt8 × Bool) :=
  if entry.isValid && !entry.isVolumeLabel then
    some (formatShortName entry.filename, entry.isDirectory)
  else none

/-- The names and kinds that are reported for a listing. -/
def shownNames (listing : ℕ → Option DirectoryEntry) (count : ℕ) : List (List UInt8 × Bool) :=
  (List.range count).filterMap fun i => (listing i).bind shown

/-- Slots without an entry may be left out. -/
theorem shownNames_of_le {listing : ℕ → Option DirectoryEntry} {n m : ℕ} (less : n ≤ m)
    (nothing : ∀ i, n ≤ i → listing i = none) : shownNames listing m = shownNames listing n := by
  obtain ⟨more, rfl⟩ := Nat.exists_eq_add_of_le less
  have none : (List.range more).filterMap
      ((fun i => (listing i).bind shown) ∘ fun i => n + i) = [] := by
    refine List.filterMap_eq_nil_iff.mpr fun i _ => ?_
    rw [Function.comp_apply, nothing (n + i) (Nat.le_add_right n i)]
    rfl
  rw [shownNames, List.range_add, List.filterMap_append, List.filterMap_map, none,
    List.append_nil]
  rfl

theorem listing_eq_none (beyond : (v.slots disk c).length ≤ j) : v.listing disk c j = none := by
  cases found : v.listing disk c j with
  | none => rfl
  | some entry => exact absurd (lt_length_of_live found) (not_lt.mpr beyond)

theorem SameFile.shown_eq (same : SameFile entry entry') : shown entry' = shown entry := by
  unfold shown DirectoryEntry.isValid DirectoryEntry.isVolumeLabel
  rw [same.isFile_eq, same.isDirectory_eq, same.1, same.2]

/-- The names and kinds that are reported for a directory. -/
def namesIn (v : Volume) (disk : Bytes) (c : ℕ) : List (List UInt8 × Bool) :=
  shownNames (v.listing disk c) (v.slots disk c).length

/-- The report on a directory depends on what is shown of its entries only. -/
theorem namesIn_congr
    (same : ∀ i, (v.listing disk' c' i).bind shown = (v.listing disk c i).bind shown) :
    v.namesIn disk' c' = v.namesIn disk c := by
  have extend : ∀ disk c count, (v.slots disk c).length ≤ count →
      v.namesIn disk c = shownNames (v.listing disk c) count := fun disk c count less =>
    (shownNames_of_le less fun i beyond => listing_eq_none beyond).symm
  rw [extend disk' c' _ (Nat.le_max_left _ (v.slots disk c).length),
    extend disk c _ (Nat.le_max_right (v.slots disk' c').length _)]
  exact List.filterMap_congr fun i _ => same i

/-- `ListDirectory` of the directory that is found. -/
theorem Sound.listDirectory_of_lookup (sound : v.Sound) (readable : v.RootReadable)
    (found : v.getDirectoryLookup disk path = .ok (some entry)) (kind : entry.isDirectory = true)
    (table : v.IsTable disk (v.firstCluster entry)) :
    v.listDirectory disk path = .ok (v.namesIn disk (v.firstCluster entry)) := by
  unfold listDirectory
  rw [found]
  change (if !entry.isDirectory then _ else _) = _
  rw [kind, sound.scanDirectoryTable_eq readable table]
  change Except.ok _ = _
  rw [← List.filterMap_eq_map, List.filterMap_filter, List.filterMap_filterMap]
  rfl

/-- Listing a path that leads to a directory. -/
theorem Sound.listDirectory_of_leads (sound : v.Sound) (readable : v.RootReadable)
    (formed : v.WellFormed disk) (valid : path.Valid)
    (named : path.components ≠ [] ∨ path.isRoot = true)
    (leads : v.Leads disk v.rootCluster (names path.components) c) :
    v.listDirectory disk path = .ok (v.namesIn disk c) := by
  have known := leads.directory (Directory.root v disk)
  have found : ∃ entry, v.getDirectoryLookup disk path = .ok (some entry) ∧
      entry.isDirectory = true ∧ v.firstCluster entry = c := by
    unfold getDirectoryLookup
    by_cases nothing : path.components = []
    · rw [nothing] at leads
      cases leads
      rw [if_pos (named.resolve_left (not_not.mpr nothing))]
      exact ⟨_, rfl, v.isDirectory_root, sound.firstCluster_root⟩
    · have inner : path.isRoot = false := by
        rw [Path.isRoot, List.isEmpty_eq_false_iff.mpr nothing, Bool.and_false]
      obtain ⟨result, walk, first, kind⟩ := sound.walkFromRoot_of_leads readable formed leads
      rw [inner, lookupPath_eq valid nothing, walk]
      exact ⟨result.entry, rfl, kind, first⟩
  obtain ⟨entry, lookup, kind, rfl⟩ := found
  exact sound.listDirectory_of_lookup readable lookup kind (formed.table _ known)

/-- Nothing is reported for the empty path. -/
theorem listDirectory_of_empty (valid : path.Valid) (nothing : path.components = [])
    (inner : path.isRoot = false) (disk : Bytes) : v.listDirectory disk path = .ok [] := by
  unfold listDirectory getDirectoryLookup
  rw [inner, lookupPath_of_empty valid nothing]
  rfl

/-- What a lookup reads: the name, the kind, and where a directory starts. -/
def face (v : Volume) (entry : DirectoryEntry) : ShortName × UInt8 × ℕ :=
  (entry.filename, entry.attributes, if entry.isDirectory then v.firstCluster entry else 0)

theorem sameFile_of_face (same : v.face entry' = v.face entry) : SameFile entry entry' := by
  rw [Prod.mk.injEq, Prod.mk.injEq] at same
  exact ⟨same.1, same.2.1⟩

theorem firstCluster_of_face (same : v.face entry' = v.face entry)
    (kind : entry.isDirectory = true) : v.firstCluster entry' = v.firstCluster entry := by
  have kind' := (sameFile_of_face same).isDirectory_eq.trans kind
  unfold face at same
  rw [kind, kind', Prod.mk.injEq, Prod.mk.injEq] at same
  exact same.2.2

/-- The directories show the same entries on both disks. -/
def SameFaces (v : Volume) (disk disk' : Bytes) : Prop :=
  ∀ c, v.Directory disk c → ∀ i,
    (v.listing disk' c i).map v.face = (v.listing disk c i).map v.face

theorem named_of_face {name : ShortName} (same : v.face entry' = v.face entry) :
    Named entry' name ↔ Named entry name := by
  obtain ⟨filename, attributes⟩ := sameFile_of_face same
  unfold Named DirectoryEntry.isLongNameSubComponent DirectoryEntry.isFree
  rw [filename, attributes]

theorem finds_of_faces {listing listing' : ℕ → Option DirectoryEntry} {name : ShortName}
    (same : ∀ i, (listing' i).map v.face = (listing i).map v.face)
    (finds : Finds listing name j entry) :
    ∃ entry', Finds listing' name j entry' ∧ v.face entry' = v.face entry := by
  obtain ⟨here, named, first⟩ := finds
  have there := same j
  rw [here, Option.map_some, Option.map_eq_some_iff] at there
  obtain ⟨entry', here', equal⟩ := there
  refine ⟨entry', ⟨here', (named_of_face equal).mpr named, fun i before other found => ?_⟩, equal⟩
  have back := same i
  rw [found, Option.map_some, eq_comm, Option.map_eq_some_iff] at back
  obtain ⟨other', found', equal'⟩ := back
  rw [← named_of_face equal']
  exact first i before other' found'

/-- Lookups depend on faces only. -/
theorem SameFaces.leads (same : v.SameFaces disk disk') {names : List (List UInt8)}
    (known : v.Directory disk c) (leads : v.Leads disk c names p) :
    v.Leads disk' c names p := by
  induction leads with
  | nil => exact .nil
  | @cons c c' j component rest name entry formatted finds kind later ih =>
    obtain ⟨entry', finds', equal⟩ := finds_of_faces (same c known) finds
    refine .cons formatted finds' ((sameFile_of_face equal).isDirectory_eq.trans kind) ?_
    rw [firstCluster_of_face equal kind]
    exact ih (known.tail (Finds.child formatted finds kind))

/-- Paths denote entries with equal faces. -/
theorem SameFaces.denotes (same : v.SameFaces disk disk') {names : List (List UInt8)}
    (known : v.Directory disk c) (denotes : v.Denotes disk c names p j entry) :
    ∃ entry', v.Denotes disk' c names p j entry' ∧ v.face entry' = v.face entry := by
  obtain ⟨front, last, name, split, leads, formatted, finds⟩ := denotes
  obtain ⟨entry', finds', equal⟩ := finds_of_faces (same p (leads.directory known)) finds
  exact ⟨entry', ⟨front, last, name, split, same.leads known leads, formatted, finds'⟩, equal⟩

end AlkOS.Fat.Volume
