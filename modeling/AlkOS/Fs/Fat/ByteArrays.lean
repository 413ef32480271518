import AlkOS.Fs.Fat.Reading

/-!
# Files behave like byte arrays

After `WriteFile` the file reads like a byte array that was written to, and everything
else reads as before, on exactly those volumes that keep to the limits of the driver.
-/

namespace AlkOS.Fat.Volume

open Kernel Vfs

variable {v : Volume} {disk disk' : Bytes} {c i j p offset count : ℕ}
  {entry entry' other : DirectoryEntry} {buffer : List UInt8} {path : Path}

/-- A file reads the same on both disks. -/
def ReadsSame (v : Volume) (disk disk' : Bytes) (path : Path) : Prop :=
  v.getFileSize disk' path = v.getFileSize disk path ∧
    ∀ size offset, v.readFile disk' path size offset = v.readFile disk path size offset

/-- A file reads like an array that some bytes were written to. -/
structure ReadsWritten (v : Volume) (disk disk' : Bytes) (path : Path) (old offset : ℕ)
    (buffer : List UInt8) (count : ℕ) : Prop where
  size : v.getFileSize disk' path = .ok (.ok (max old (offset + count)))
  bytes : ∀ size start, size ≠ 0 → ∃ read before,
    v.readFile disk' path size start = .ok (.ok read) ∧
    v.readFile disk path size start = .ok (.ok before) ∧
    read.length = min size (max old (offset + count) - start) ∧
    ∀ i < read.length,
      (offset ≤ start + i ∧ start + i < offset + count →
        read[i]? = buffer[start + i - offset]?) ∧
      (¬ (offset ≤ start + i ∧ start + i < offset + count) → start + i < old →
        read[i]? = before[i]?)

/-- `WriteFile` treats every file of a well-formed volume like a byte array. -/
def WritesLikeByteArrays (v : Volume) : Prop :=
  ∀ disk, v.WellFormed disk → ∀ (path : Path.Parsed) (p j : ℕ) (entry : DirectoryEntry),
    v.Denotes disk v.rootCluster (names path.1.components) p j entry → entry.isFile = true →
    ∀ (buffer : List UInt8) (offset : ℕ), buffer ≠ [] → offset + buffer.length < 2 ^ 32 →
    ∃ result disk', (v.writeFile path.1 buffer offset).run disk = .ok result disk' ∧
      match result with
      | .ok count =>
        v.ReadsWritten disk disk' path.1 entry.fileSize.toNat offset buffer count ∧
        (∀ (path' : Path.Parsed) (c i : ℕ) (other : DirectoryEntry),
          v.Denotes disk v.rootCluster (names path'.1.components) c i other →
          other.isFile = true → (c, i) ≠ (p, j) → v.ReadsSame disk disk' path'.1) ∧
        (∀ (path' : Path.Parsed) (c : ℕ),
          v.Leads disk v.rootCluster (names path'.1.components) c →
          v.listDirectory disk' path'.1 = v.listDirectory disk path'.1) ∧
        v.WellFormed disk'
      | .error error =>
        error = .diskFull ∧ ∀ (path' : Path.Parsed) (c i : ℕ) (other : DirectoryEntry),
          v.Denotes disk v.rootCluster (names path'.1.components) c i other →
          other.isFile = true → v.ReadsSame disk disk' path'.1

theorem FileChanged.sameFaces (changed : v.FileChanged disk disk' p j entry')
    (listed : v.Listed disk p j entry) (file : entry.isFile = true)
    (same : SameFile entry entry') : v.SameFaces disk disk' := by
  intro c known i
  rw [changed.listing c known i]
  split_ifs with this
  · obtain ⟨rfl, rfl⟩ := Prod.mk.inj this
    have plain := isDirectory_eq_false file
    rw [listed.here, Option.map_some, Option.map_some, face, face, same.isDirectory_eq, plain,
      same.1, same.2]
    simp
  · rfl

theorem fileRange_congr {size start : ℕ} (same : ∀ position, start ≤ position →
      position < start + size → v.fileByte disk' entry' position = v.fileByte disk entry position) :
    v.fileRange disk' entry' start size = v.fileRange disk entry start size := by
  refine List.map_congr_left fun position member => ?_
  rw [List.mem_range'_1] at member
  exact same position member.1 member.2

section

variable (sound : v.Sound) (readable : v.RootReadable) (formed : v.WellFormed disk)
include sound readable formed

/-- A file that was not altered reads the same. -/
theorem Sound.readsSame_of_unaltered (formed' : v.WellFormed disk') (valid : path.Valid)
    (denotes : v.Denotes disk v.rootCluster (names path.components) c i entry)
    (denotes' : v.Denotes disk' v.rootCluster (names path.components) c i entry')
    (file : entry.isFile = true) (file' : entry'.isFile = true)
    (unaltered : v.Unaltered disk disk' entry entry') : v.ReadsSame disk disk' path := by
  obtain ⟨sized, read⟩ := sound.reads_of_denotes readable formed valid denotes file
  obtain ⟨sized', read'⟩ := sound.reads_of_denotes readable formed' valid denotes' file'
  refine ⟨?_, fun size start => ?_⟩
  · rw [sized, sized', unaltered.size]
  · by_cases positive : size = 0
    · rw [positive]
      rfl
    · rw [read positive, read' positive, unaltered.size,
        fileRange_congr fun position _ below => unaltered.kept position (by omega)]

/-- Another file reads the same. -/
theorem Sound.readsSame_of_ne (changed : v.FileChanged disk disk' p j entry')
    (faces : v.SameFaces disk disk') (valid : path.Valid)
    (denotes : v.Denotes disk v.rootCluster (names path.components) c i other)
    (file : other.isFile = true) (different : (c, i) ≠ (p, j)) : v.ReadsSame disk disk' path := by
  have known := Directory.root v disk
  have listed := denotes.listed known (.inl file)
  obtain ⟨other', denotes', -⟩ := faces.denotes known denotes
  have same : other' = other := by
    have here := denotes'.here
    rw [changed.listing c listed.directory i, if_neg different, listed.here] at here
    exact (Option.some.inj here).symm
  subst same
  obtain ⟨blocks, bytes⟩ := changed.others c i other' listed file different
  refine sound.readsSame_of_unaltered readable formed changed.formed valid denotes denotes' file
    file ⟨rfl, fun position inside => ?_⟩
  unfold fileByte
  rw [blocks]
  exact sound.content_congr bytes (lt_of_lt_of_le inside (formed.file c i _ listed file).2)

/-- The file that was written to. -/
theorem Sound.readsWritten_of_stored (formed' : v.WellFormed disk') (valid : path.Valid)
    (denotes : v.Denotes disk v.rootCluster (names path.components) c i entry)
    (denotes' : v.Denotes disk' v.rootCluster (names path.components) c i entry')
    (file : entry.isFile = true) (file' : entry'.isFile = true)
    (stored : v.Stored disk disk' entry entry' offset buffer count) :
    v.ReadsWritten disk disk' path entry.fileSize.toNat offset buffer count := by
  obtain ⟨-, read⟩ := sound.reads_of_denotes readable formed valid denotes file
  obtain ⟨sized', read'⟩ := sound.reads_of_denotes readable formed' valid denotes' file'
  refine ⟨?_, fun size start positive => ?_⟩
  · rw [sized', stored.size]
  · refine ⟨_, _, read' positive, read positive, ?_, fun i inside => ⟨?_, ?_⟩⟩
    · rw [length_fileRange, stored.size]
    · intro within
      rw [length_fileRange] at inside
      have shift : start + i = offset + (start + i - offset) := by omega
      have known : start + i - offset < buffer.length := by
        have most := stored.atMost
        omega
      rw [getElem?_fileRange inside, shift, stored.written _ (by omega),
        Nat.add_sub_cancel_left, List.getElem?_eq_getElem known, List.getD_eq_getElem _ _ known]
    · intro outside below
      rw [length_fileRange] at inside
      have small : i < min size (entry.fileSize.toNat - start) :=
        lt_min (lt_of_lt_of_le inside (Nat.min_le_left _ _)) (by omega)
      rw [getElem?_fileRange inside, getElem?_fileRange small, stored.kept _ below outside]

/-- A directory whose entries look the same is listed the same. -/
theorem Sound.listDirectory_eq_of_faces (formed' : v.WellFormed disk')
    (faces : v.SameFaces disk disk') (valid : path.Valid)
    (leads : v.Leads disk v.rootCluster (names path.components) c) :
    v.listDirectory disk' path = v.listDirectory disk path := by
  have known := Directory.root v disk
  have same : v.namesIn disk' c = v.namesIn disk c := by
    refine namesIn_congr fun i => ?_
    have equal := faces c (leads.directory known) i
    cases here : v.listing disk c i with
    | none =>
      rw [here, Option.map_none, Option.map_eq_none_iff] at equal
      rw [equal]
    | some entry =>
      rw [here, Option.map_some, Option.map_eq_some_iff] at equal
      obtain ⟨entry', here', face⟩ := equal
      rw [here']
      exact (sameFile_of_face face).shown_eq
  by_cases named : path.components ≠ [] ∨ path.isRoot = true
  · rw [sound.listDirectory_of_leads readable formed valid named leads,
      sound.listDirectory_of_leads readable formed' valid named (faces.leads known leads), same]
  · rw [not_or, not_not, Bool.not_eq_true] at named
    simp only [listDirectory_of_empty valid named.1 named.2]

end

theorem run_writeFile_of_lookup {result : PathLookupResult} (nonempty : buffer ≠ [])
    (found : v.lookupPath disk path = .ok (some result)) (file : result.entry.isFile = true) :
    (v.writeFile path buffer offset).run disk =
      (v.writeFileData result buffer offset).run disk := by
  unfold writeFile
  rw [if_neg nonempty, run_bind (run_lookup found)]
  simp only [file]
  rfl

/-- On a volume within the limits every write behaves. -/
theorem Sound.writesLikeByteArrays (sound : v.Sound) (fits : v.Fits) : v.WritesLikeByteArrays := by
  intro disk formed path p j entry denotes file buffer offset nonempty bounded
  have readable := fits.rootFits.readable
  have known := Directory.root v disk
  have listed := denotes.listed known (.inl file)
  have found := sound.lookupPath_of_denotes readable formed path.2 denotes
  obtain ⟨result, disk', entry', run, changed, same, outcome⟩ :=
    sound.run_writeFileData fits formed listed file nonempty
  have faces := changed.sameFaces listed file same
  have file' := same.isFile_eq.trans file
  have written : ∀ path' : Path.Parsed,
      v.Denotes disk v.rootCluster (names path'.1.components) p j entry →
      v.Denotes disk' v.rootCluster (names path'.1.components) p j entry' := by
    intro path' denotes
    obtain ⟨now, denotes', -⟩ := faces.denotes known denotes
    have here := denotes'.here
    rw [changed.listing p listed.directory j, if_pos rfl] at here
    rwa [Option.some.inj here]
  refine ⟨result, disk', ?_, ?_⟩
  · rw [run_writeFile_of_lookup nonempty found file]
    exact run
  · rcases outcome with ⟨rfl, unaltered⟩ | ⟨count, rfl, atMost, stored⟩
    · refine ⟨rfl, fun path' c i other denotes' isFile => ?_⟩
      by_cases this : (c, i) = (p, j)
      · obtain ⟨rfl, rfl⟩ := Prod.mk.inj this
        obtain rfl := Option.some.inj (denotes'.here.symm.trans listed.here)
        exact sound.readsSame_of_unaltered readable formed changed.formed path'.2 denotes'
          (written path' denotes') file file' unaltered
      · exact sound.readsSame_of_ne readable formed changed faces path'.2 denotes' isFile this
    · refine ⟨?_, fun path' c i other denotes' isFile this => ?_, fun path' c leads => ?_,
        changed.formed⟩
      · exact sound.readsWritten_of_stored readable formed changed.formed path.2 denotes
          (written path denotes) file file' (stored (by omega))
      · exact sound.readsSame_of_ne readable formed changed faces path'.2 denotes' isFile this
      · exact sound.listDirectory_eq_of_faces readable formed changed.formed faces path'.2 leads

/-- A volume whose root directory has empty files only is well formed. -/
theorem wellFormed_of_empty_files (table : v.IsTable disk v.rootCluster)
    (only : ∀ i other, v.listing disk v.rootCluster i = some other →
      other.isFile = true ∧ v.firstCluster other = 0 ∧ other.fileSize = 0) :
    v.WellFormed disk := by
  have alone : ∀ c, v.Directory disk c → c = v.rootCluster := by
    intro c directory
    induction directory with
    | refl => rfl
    | tail _ edge ih =>
      obtain ⟨i, other, here, -, kind, -⟩ := edge
      rw [ih] at here
      exact absurd kind (not_isDirectory (only i other here).1)
  have empty : ∀ c i other, v.Listed disk c i other → v.objectBlocks disk other = [] := by
    intro c i other listed
    have here := listed.here
    rw [alone c listed.directory] at here
    exact if_pos ⟨(only i other here).1, (only i other here).2.1⟩
  refine ⟨fun c directory => ?_, fun c i other listed file => ?_,
    fun first second x holds holds' => ?_⟩
  · rw [alone c directory]
    exact table
  · have here := listed.here
    rw [alone c listed.directory] at here
    refine ⟨.inl (only i other here).2.1, ?_⟩
    rw [(only i other here).2.2]
    exact Nat.zero_le _
  · cases holds with
    | root _ =>
      cases holds' with
      | root _ => rfl
      | object listed member =>
        rw [empty _ _ _ listed] at member
        exact nomatch member
    | object listed member =>
      rw [empty _ _ _ listed] at member
      exact nomatch member

/-- A disk of zeros with the given clusters in use. -/
def marked (v : Volume) (l : List ℕ) : Bytes :=
  l.foldl (fun disk x => v.putEntry disk x v.kEOC) fun _ => 0

/-- Marking clusters changes their entries only. -/
theorem Sound.frame_marked (sound : v.Sound) {l : List ℕ} (known : ∀ x ∈ l, v.InRange x) :
    v.Frame (fun _ => 0) (v.marked l) {x | x ∈ l} ∅ ∧
      ∀ x ∈ l, v.entry (v.marked l) x = v.kEOC := by
  induction l using List.reverseRecOn with
  | nil => exact ⟨Frame.refl v _, by simp⟩
  | append_singleton l last ih =>
    obtain ⟨frame, marks⟩ := ih fun x member => known x (List.mem_append_left _ member)
    have step : v.marked (l ++ [last]) = v.putEntry (v.marked l) last v.kEOC := by
      rw [marked, List.foldl_append]
      rfl
    rw [step]
    refine ⟨(frame.trans (sound.frame_putEntry (known last (by simp)).2)).mono ?_ (by simp), ?_⟩
    · intro x member
      simpa [or_comm] using member
    · intro x member
      by_cases same : last = x
      · rw [same, entry_putEntry_self, Nat.mod_eq_of_lt v.kEOC_lt]
      · rw [entry_putEntry_of_ne same]
        exact marks x (by simpa [Ne.symm same] using member)

theorem readLE_zero (start width : ℕ) : Bytes.readLE (fun _ => 0) start width = 0 := by
  induction width generalizing start with
  | zero => rfl
  | succ width ih => simp [Bytes.readLE, ih]

theorem entry_zero (v : Volume) (x : ℕ) : v.entry (fun _ => 0) x = 0 := by
  unfold entry
  rw [readLE_zero]
  cases v.variant with
  | fat12 => simp [Variant.decodeEntry]
  | fat16 => rfl
  | fat32 => rfl

/-- The name of the file `A`. -/
def nameA : ShortName := fun i => if i = 0 then 65 else 32

/-- The entry of an empty file. -/
def emptyFile : DirectoryEntry :=
  { DirectoryEntry.zero with filename := nameA, attributes := Attributes.archive }

/-- A disk with one empty file and some clusters in use. -/
def loneFile (v : Volume) (l : List ℕ) : Bytes := v.putSlot (v.marked l) v.rootCluster 0 emptyFile

/-- The path of the file. -/
def pathA : Path.Parsed := ⟨Path.parse [Vfs.kPathSeparator, 65], Path.valid_parse _⟩

/-- The volume of the lone file. -/
theorem Sound.loneFile_spec (sound : v.Sound) {l : List ℕ} (known : ∀ x ∈ l, v.InRange x)
    (table : v.IsTable (v.marked l) v.rootCluster)
    (single : v.extent (v.marked l) v.rootCluster = [v.rootCluster])
    (room : 0 < v.blockSize v.rootCluster / kEntrySize) :
    v.WellFormed (v.loneFile l) ∧
      v.listing (v.loneFile l) v.rootCluster 0 = some emptyFile ∧
      v.Frame (v.marked l) (v.loneFile l) ∅ {v.rootCluster} := by
  have isBlock := table.isBlock table.start_mem
  have frame : v.Frame (v.marked l) (v.loneFile l) ∅ {v.rootCluster} :=
    sound.frame_putBlock isBlock
  have blank : v.slots (v.marked l) v.rootCluster =
      List.replicate (v.blockSize v.rootCluster / kEntrySize) DirectoryEntry.zero := by
    rw [slots, single, List.flatMap_singleton, ← slotsOf_zero, blockSlots_congr fun i inside =>
      (sound.frame_marked known).1.block _ isBlock id i inside, blockSlots]
    unfold block
    split_ifs <;> rfl
  obtain ⟨n, more⟩ := Nat.exists_eq_succ_of_ne_zero room.ne'
  have filled : v.slots (v.loneFile l) v.rootCluster =
      emptyFile :: List.replicate n DirectoryEntry.zero := by
    have split : v.extent (v.marked l) v.rootCluster = [] ++ v.rootCluster :: [] := single
    have put : v.slots (v.putSlot (v.marked l) v.rootCluster 0 emptyFile) v.rootCluster =
        (v.slots (v.marked l) v.rootCluster).set 0 emptyFile :=
      sound.slots_putSlot table split (by rw [length_blockSlots]; exact room)
    rw [blank, more] at put
    exact put
  have listing : ∀ i, v.listing (v.loneFile l) v.rootCluster i =
      if i = 0 then some emptyFile else none := by
    intro i
    rw [Volume.listing, filled]
    cases i with
    | zero => exact live_cons_zero (by decide)
    | succ i =>
      rw [live_cons_succ (by decide)]
      cases n with
      | zero => rfl
      | succ n => exact live_cons_of_end (by decide)
  refine ⟨wellFormed_of_empty_files (frame.extent_eq table fun _ _ => id).2 fun i other here => ?_,
    listing 0, frame⟩
  rw [listing] at here
  split_ifs at here
  obtain rfl := Option.some.inj here
  refine ⟨by decide, ?_, rfl⟩
  exact Nat.zero_mod _

theorem Sound.loneFile_fixed (sound : v.Sound) (fixed : v.variant.kHasFixedRootDir = true)
    (room : 0 < v.rootSize / kEntrySize) :
    v.WellFormed (v.loneFile []) ∧ v.listing (v.loneFile []) v.rootCluster 0 = some emptyFile ∧
      v.Frame (v.marked []) (v.loneFile []) ∅ {v.rootCluster} := by
  have root : v.IsRootBlock v.rootCluster := ⟨fixed, if_pos fixed⟩
  exact sound.loneFile_spec (fun x none => nomatch none) (.inl root) (extent_of_root root)
    (by rwa [blockSize, if_pos root])

theorem denotes_loneFile (here : v.listing disk v.rootCluster 0 = some emptyFile) :
    v.Denotes disk v.rootCluster (names pathA.1.components) v.rootCluster 0 emptyFile := by
  have formatted : formatFilename [65] = some nameA := by decide
  exact Denotes.concat .nil formatted
    ⟨here, ⟨by decide, rfl⟩, fun i below => absurd below (Nat.not_lt_zero i)⟩

theorem firstCluster_emptyFile (v : Volume) : v.firstCluster emptyFile = 0 := Nat.zero_mod _

theorem isFile_emptyFile : emptyFile.isFile = true := by decide

/-- The fixed root directory is changed only if it fits the temporary buffer. -/
theorem rootSize_le_of_update {value : Unit} (root : v.IsRootBlock p) (inside : offset < v.rootSize)
    (run : (v.updateDirectoryEntry p offset entry).run disk = .ok value disk') :
    v.rootSize ≤ kMaxClusterSize := by
  rw [updateDirectoryEntry, if_pos (isRootBlock_iff.mpr root), updateEntryInFixedRootDir,
    if_neg (not_le.mpr inside)] at run
  obtain ⟨bytes, disk₁, -, run⟩ := run_bind_eq_ok run
  obtain ⟨checked, disk₂, check, -⟩ := run_bind_eq_ok run
  have passes := (run_reading_eq_ok check).1
  by_contra large
  rw [checkBuffer, if_neg large] at passes
  cases passes

/-- Nothing is looked up in a root directory that cannot be read. -/
theorem Sound.rootReadable_of_lookup (sound : v.Sound) {found : Option PathLookupResult}
    (looked : (reading fun disk => v.lookupPath disk pathA.1).run disk = .ok found disk') :
    v.RootReadable := by
  intro fixed
  by_contra large
  have range : v.checkRange v.rootSectors =
      .error (.assertion "Requested range exceeds maximum temporary buffer size") := if_neg large
  have root : v.IsRootBlock v.rootCluster := ⟨fixed, if_pos fixed⟩
  have parts : pathA.1.components = [[65]] := by decide
  have formatted : formatFilename [65] = some nameA := by decide
  have seen := (run_reading_eq_ok looked).1
  rw [lookupPath_eq pathA.2 (by rw [parts]; exact List.cons_ne_nil _ _), parts, walkFromRoot,
    lookupComponents, findEntryInDirectory, formatted] at seen
  simp only [scanDirectoryTableWithOffset] at seen
  rw [sound.firstCluster_root, if_pos (isRootBlock_iff.mpr root), readRoot, range] at seen
  cases seen

/-- A root directory that does not fit a buffer is never written. -/
theorem Sound.not_writes_of_large_root (sound : v.Sound)
    (fixed : v.variant.kHasFixedRootDir = true) (large : kMaxClusterSize < v.rootSize)
    (clusters : 0 < v.clusterCount) : ¬ v.WritesLikeByteArrays := by
  intro writes
  obtain ⟨formed, here, frame⟩ := sound.loneFile_fixed fixed (by
    unfold kEntrySize
    unfold kMaxClusterSize at large
    omega)
  obtain ⟨result, disk', run, -⟩ := writes _ formed pathA _ 0 emptyFile (denotes_loneFile here)
    (by decide) [0] 0 (List.cons_ne_nil 0 []) (by decide)
  have readable : v.RootReadable := by
    obtain ⟨_, _, looked, -⟩ := run_bind_eq_ok run
    exact sound.rootReadable_of_lookup looked
  have found := sound.lookupPath_of_denotes readable formed pathA.2 (denotes_loneFile here)
  rw [run_writeFile_of_lookup (List.cons_ne_nil 0 []) found isFile_emptyFile] at run
  obtain ⟨first, disk₁, run₁, -⟩ := run_bind_eq_ok run
  rw [ensureFirstCluster, if_pos (firstCluster_emptyFile v)] at run₁
  obtain ⟨cluster, disk₂, allocated, run₂⟩ := run_bind_eq_ok run₁
  have taken : cluster ≠ 0 := by
    rw [sound.run_allocateCluster] at allocated
    cases free : v.firstFree (v.loneFile []) with
    | none =>
      have known : v.InRange 2 := ⟨le_refl 2, Nat.lt_add_of_pos_left clusters⟩
      refine absurd ?_ (firstFree_eq_none free known)
      rw [frame.entry 2 known.2 id]
      exact v.entry_zero 2
    | some x =>
      rw [free] at allocated
      cases allocated
      have positive : (2 : ℕ) ≤ cluster := (firstFree_eq_some free).1.1
      omega
  rw [if_neg taken] at run₂
  obtain ⟨updated, disk₃, update, -⟩ := run_bind_eq_ok run₂
  have inside : 0 * kEntrySize < v.rootSize := by
    exact lt_of_le_of_lt (Nat.zero_le _) large
  exact absurd (rootSize_le_of_update ⟨fixed, if_pos fixed⟩ inside update) (not_le.mpr large)

/-- One byte written to the start of a cluster. -/
theorem Sound.run_write_byte (sound : v.Sound) (disk : Bytes) (cluster : ℕ) (byte : UInt8) :
    (v.writeToClusterChain cluster [byte] 0).run disk =
      .ok 1 (v.patched disk cluster 0 [byte]) := by
  have size := sound.clusterSize_pos
  have one : min (v.clusterSize - 0) [byte].length = 1 := by
    exact Nat.min_eq_right size
  rw [writeToClusterChain, sound.run_writeLoop_succ _ (List.cons_ne_nil byte []), one]
  rfl

section

variable (sound : v.Sound) (inner : v.variant.kHasFixedRootDir = false)
include sound inner

/-- Rewriting the slot of the lone file. -/
theorem Sound.run_update_loneFile (table : v.IsTable disk v.rootCluster)
    (here : v.listing disk v.rootCluster 0 = some entry) (same : SameFile emptyFile entry') :
    ∃ disk', (v.updateDirectoryEntry v.rootCluster (0 * kEntrySize) entry').run disk =
        .ok () disk' ∧ v.Rewrites disk disk' v.rootCluster 0 (some entry') := by
  have fits : v.RootFits := fun fixed => nomatch inner.symm.trans fixed
  have going : entry'.isFurtherEntriesFree = false := same.isFurtherEntriesFree_eq
  obtain ⟨disk', run, rewrites⟩ := sound.run_update fits table here going
  rw [kept, same.isFree_eq] at rewrites
  exact ⟨disk', run, rewrites⟩

/-- The first byte of the lone file goes to the first free cluster, wherever it is. -/
theorem Sound.run_writeFileData_loneFile (table : v.IsTable disk v.rootCluster)
    (here : v.listing disk v.rootCluster 0 = some emptyFile) {free : ℕ}
    (found : v.firstFree disk = some free) (apart : free ∉ v.extent disk v.rootCluster) :
    ∃ disk' entry', (v.writeFileData ⟨emptyFile, v.rootCluster, 0 * kEntrySize⟩ [0] 0).run
        disk = .ok (.ok 1) disk' ∧
      v.Listed disk' v.rootCluster 0 entry' ∧ entry'.isFile = true ∧
      v.firstCluster entry' = free := by
  obtain ⟨known, -⟩ := firstFree_eq_some found
  have positive : (2 : ℕ) ≤ free := known.1
  have outside : ∀ b ∈ v.extent disk v.rootCluster, b ∉ ({free} : Set ℕ) := fun b member same =>
    apart (Set.mem_singleton_iff.mp same ▸ member)
  have allocated := sound.run_allocateCluster disk
  rw [found] at allocated
  have frame₁ : v.Frame disk (v.putEntry disk free v.kEOC) {free} ∅ := sound.frame_putEntry known.2
  obtain ⟨extent₁, table₁⟩ := frame₁.extent_eq table outside
  have here₁ := frame₁.listing_eq table outside fun _ _ => id
  have same₁ : SameFile emptyFile (emptyFile.setFirstCluster free) := ⟨rfl, rfl⟩
  obtain ⟨disk₂, run₂, rewrites₂⟩ := sound.run_update_loneFile inner table₁
    (by rw [here₁]; exact here) same₁
  obtain ⟨extent₂, table₂⟩ := rewrites₂.extent_eq table₁
  have frame₃ : v.Frame disk₂ (v.patched disk₂ free 0 [0]) ∅ {free} := sound.frame_patched known
  have here₃ := frame₃.listing_eq table₂ (fun _ _ => id) (by rw [extent₂, extent₁]; exact outside)
  have same₄ : SameFile emptyFile
      { emptyFile.setFirstCluster free with fileSize := UInt32.ofNat 1 } := ⟨rfl, rfl⟩
  obtain ⟨disk₄, run₄, rewrites₄⟩ := sound.run_update_loneFile inner
    (frame₃.extent_eq table₂ fun _ _ => id).2
    (by rw [here₃, rewrites₂.listing, Function.update_self]) same₄
  refine ⟨disk₄, _, ?_, ⟨Directory.root v disk₄, ?_, same₄.isObject (by decide)⟩,
    same₄.isFile_eq.trans isFile_emptyFile,
    firstCluster_setFirstCluster emptyFile (known.2.trans sound.clusters_lt)⟩
  · have first : (v.ensureFirstCluster ⟨emptyFile, v.rootCluster, 0 * kEntrySize⟩).run
        disk = .ok (some (emptyFile.setFirstCluster free, free)) disk₂ := by
      rw [ensureFirstCluster, if_pos (firstCluster_emptyFile v), run_bind allocated,
        if_neg (by omega), run_bind run₂]
      rfl
    have stays : (v.ensureClusterChain (0 / v.clusterSize) free).run disk₂ =
        .ok free disk₂ := by
      rw [Nat.zero_div]
      rfl
    rw [writeFileData, run_bind first]
    rw [run_bind stays, if_neg (by omega), Nat.zero_mod,
      run_bind (sound.run_write_byte disk₂ free 0)]
    exact run_bind run₄
  · rw [rewrites₄.listing, Function.update_self]

/-- With too many clusters, the first cluster of a file can end its chain. -/
theorem Sound.not_writes_of_many_clusters (low : v.rootDirCluster < v.kEOC)
    (many : v.kEOC < v.clusterCount + kFirstClusterNumber) : ¬ v.WritesLikeByteArrays := by
  intro writes
  have top : v.rootCluster = v.rootDirCluster := if_neg (by rw [inner]; decide)
  have rootKnown := sound.rootInRange inner
  have bottom := v.kEOC_pos
  have member : ∀ x, x ∈ List.range' 2 (v.kEOC - 2) ↔ 2 ≤ x ∧ x < v.kEOC := by
    intro x
    rw [List.mem_range'_1]
    omega
  have known : ∀ x ∈ List.range' 2 (v.kEOC - 2), v.InRange x := fun x inside =>
    ⟨((member x).mp inside).1, ((member x).mp inside).2.trans many⟩
  obtain ⟨frame, marks⟩ := sound.frame_marked known
  have chain : v.Chain (v.marked (List.range' 2 (v.kEOC - 2))) v.rootCluster [v.rootCluster] := by
    rw [top]
    exact .single rootKnown low (marks _ ((member _).mpr ⟨rootKnown.1, low⟩)).ge
  have rootBlock : v.InRange v.rootCluster := top ▸ rootKnown
  obtain ⟨formed, here, touched⟩ := sound.loneFile_spec known chain.isTable chain.extent_eq
    (by rw [blockSize_of_inRange rootBlock]; exact sound.slots_pos)
  have readable : v.RootReadable := fun fixed => nomatch inner.symm.trans fixed
  have found := sound.lookupPath_of_denotes readable formed pathA.2 (denotes_loneFile here)
  obtain ⟨result, disk', run, outcome⟩ := writes _ formed pathA _ 0 emptyFile
    (denotes_loneFile here) (by decide) [0] 0 (List.cons_ne_nil 0 []) (by decide)
  rw [run_writeFile_of_lookup (List.cons_ne_nil 0 []) found isFile_emptyFile] at run
  obtain ⟨extent', table'⟩ := touched.extent_eq chain.isTable fun _ _ => id
  have entries : ∀ x, v.InRange x → v.entry (v.loneFile (List.range' 2 (v.kEOC - 2))) x =
      if x < v.kEOC then v.kEOC else 0 := by
    intro x inside
    rw [touched.entry x inside.2 id]
    split_ifs with below
    · exact marks x ((member x).mpr ⟨inside.1, below⟩)
    · rw [frame.entry x inside.2 fun listed => below ((member x).mp listed).2]
      exact v.entry_zero x
  cases free : v.firstFree (v.loneFile (List.range' 2 (v.kEOC - 2))) with
  | none =>
    have last : v.InRange v.kEOC := ⟨bottom.le, many⟩
    refine firstFree_eq_none free last ?_
    rw [entries _ last, if_neg (lt_irrefl _)]
  | some x =>
    obtain ⟨inside, unused⟩ := firstFree_eq_some free
    have high : ¬ x < v.kEOC := by
      intro below
      rw [entries x inside, if_pos below] at unused
      omega
    have apart : x ∉ v.extent (v.loneFile (List.range' 2 (v.kEOC - 2))) v.rootCluster := by
      rw [extent', chain.extent_eq, List.mem_singleton, top]
      intro same
      exact high (same ▸ low)
    obtain ⟨disk₄, entry', written, listed, file, first⟩ :=
      sound.run_writeFileData_loneFile inner table' here free apart
    cases written.symm.trans run
    have fine := outcome.2.2.2.file _ _ _ listed file
    have chain' := fine.1.resolve_left fun zero => high (by omega)
    exact high (first ▸ chain'.lt_kEOC chain'.start_mem)

end

/-- The variants with a fixed root directory have few clusters. -/
theorem Sound.clusters_le_of_fixed (sound : v.Sound)
    (fixed : v.variant.kHasFixedRootDir = true) :
    v.clusterCount + kFirstClusterNumber ≤ v.kEOC := by
  have accepted := sound.accepted
  unfold kEOC
  cases kind : v.variant with
  | fat12 =>
    rw [kind] at accepted
    exact (Nat.add_lt_add_right (of_decide_eq_true accepted) 2).le.trans (by decide)
  | fat16 =>
    rw [kind] at accepted
    have few := of_decide_eq_true (Bool.and_eq_true_iff.mp accepted).2
    exact (Nat.add_lt_add_right few 2).le.trans (by decide)
  | fat32 =>
    rw [kind] at fixed
    exact absurd fixed (by decide)

/-- `WriteFile` treats files like byte arrays exactly within the limits of the driver. -/
theorem Sound.writesLikeByteArrays_iff (sound : v.Sound) (clusters : 0 < v.clusterCount)
    (formed : v.WellFormed disk) : v.WritesLikeByteArrays ↔ v.Fits := by
  refine ⟨fun writes => ⟨?_, fun fixed => ?_⟩, sound.writesLikeByteArrays⟩
  · cases fixed : v.variant.kHasFixedRootDir with
    | true => exact sound.clusters_le_of_fixed fixed
    | false =>
      by_contra many
      have table := formed.table _ (Directory.root v disk)
      have top : v.rootCluster = v.rootDirCluster := if_neg (by rw [fixed]; decide)
      have chain := table.chain fun root => nomatch fixed.symm.trans root.1
      have low := chain.lt_kEOC chain.start_mem
      rw [top] at low
      exact sound.not_writes_of_many_clusters fixed low (not_le.mp many) writes
  · by_contra large
    exact sound.not_writes_of_large_root fixed (not_le.mp large) clusters writes

/-- A small volume keeps both limits. -/
theorem writesLikeByteArrays_small :
    (small 1 1 8).Fits ∧ (small 1 1 8).WritesLikeByteArrays := by
  have sound : (small 1 1 8).Sound := sound_small (by decide) (by decide) (by decide)
  have fits : (small 1 1 8).Fits := ⟨by decide, fun _ => by decide⟩
  exact ⟨fits, (Sound.writesLikeByteArrays_iff sound (by decide)
    (sound.loneFile_fixed rfl (by decide)).1).mpr fits⟩

/-- A root directory of 1040 entries is larger than the temporary buffer. -/
theorem not_writesLikeByteArrays_large_root :
    (small 1 65 8).Sound ∧ ¬ (small 1 65 8).WritesLikeByteArrays := by
  have sound : (small 1 65 8).Sound := sound_small (by decide) (by decide) (by decide)
  exact ⟨sound, sound.not_writes_of_large_root rfl (by decide) (by decide)⟩

end AlkOS.Fat.Volume
