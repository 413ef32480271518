import AlkOS.Fs.Fat.Lookup

/-!
# Writing files

`WriteFile` gives a file without clusters its first one, extends its chain up to
the offset, writes the data and records the new size. Each step changes one file
and keeps the volume well formed.
-/

namespace AlkOS.Fat.Volume

open Kernel Vfs

variable {v : Volume} {disk disk' disk'' : Bytes} {c i j p x offset count : ℕ}
  {entry entry' entry'' other : DirectoryEntry} {buffer : List UInt8} {l' : List ℕ}
  {entries blocks : Set ℕ}

/-- The volume is well formed again, and no cluster was lost. -/
structure Evolves (v : Volume) (disk disk' : Bytes) : Prop where
  formed : v.WellFormed disk'
  holds : ∀ holder x, v.Holds disk holder x → ∃ holder', v.Holds disk' holder' x
  fresh : ∀ x, v.InRange x → v.entry disk x = 0 → v.entry disk' x ≠ 0 →
    ∃ holder, v.Holds disk' holder x

namespace Evolves

theorem refl (formed : v.WellFormed disk) : v.Evolves disk disk where
  formed := formed
  holds holder _ here := ⟨holder, here⟩
  fresh _ _ free taken := absurd free taken

theorem trans (first : v.Evolves disk disk') (second : v.Evolves disk' disk'') :
    v.Evolves disk disk'' where
  formed := second.formed
  holds holder x here := by
    obtain ⟨holder', there⟩ := first.holds holder x here
    exact second.holds holder' x there
  fresh x known free taken := by
    by_cases still : v.entry disk' x = 0
    · exact second.fresh x known still taken
    · obtain ⟨holder, here⟩ := first.fresh x known free still
      exact second.holds holder x here

/-- What belongs to no object may be changed before. -/
theorem after_untouched (formed : v.WellFormed disk) (frame : v.Frame disk disk' entries blocks)
    (avoid : ∀ holder x, v.Holds disk holder x → x ∉ entries ∧ x ∉ blocks)
    (evolves : v.Evolves disk' disk'') (fresh : ∀ x ∈ entries, ∃ holder, v.Holds disk'' holder x) :
    v.Evolves disk disk'' where
  formed := evolves.formed
  holds holder x here := by
    obtain ⟨-, -, holds⟩ := formed.untouched frame avoid
    exact evolves.holds holder x ((holds holder x).mpr here)
  fresh x known free taken := by
    by_cases touched : x ∈ entries
    · exact fresh x touched
    · rw [← frame.entry x known.2 touched] at free
      exact evolves.fresh x known free taken

/-- No cluster is lost. -/
theorem accounted (evolves : v.Evolves disk disk') (full : v.Accounted disk ∅) :
    v.Accounted disk' ∅ := by
  intro x known taken
  by_cases free : v.entry disk x = 0
  · exact .inr (evolves.fresh x known free taken)
  · obtain ⟨holder, here⟩ := (full x known free).resolve_left id
    exact .inr (evolves.holds holder x here)

end Evolves

/-- Only the file in one slot has changed; its entry is now the given one. -/
structure FileChanged (v : Volume) (disk disk' : Bytes) (p j : ℕ) (entry' : DirectoryEntry) :
    Prop where
  formed : v.WellFormed disk'
  directory : ∀ c, v.Directory disk' c ↔ v.Directory disk c
  listing : ∀ c, v.Directory disk c → ∀ i,
    v.listing disk' c i = if (c, i) = (p, j) then some entry' else v.listing disk c i
  object : IsObject entry'
  others : ∀ c i other, v.Listed disk c i other → other.isFile = true → (c, i) ≠ (p, j) →
    v.objectBlocks disk' other = v.objectBlocks disk other ∧
      ∀ x ∈ v.objectBlocks disk other, ∀ t < v.clusterSize, v.data disk' x t = v.data disk x t
  holds : ∀ holder x, v.Holds disk holder x → v.Holds disk' holder x
  fresh : ∀ x, v.InRange x → v.entry disk x = 0 → v.entry disk' x ≠ 0 →
    ∃ holder, v.Holds disk' holder x

namespace FileChanged

theorem listed (changed : v.FileChanged disk disk' p j entry') (known : v.Directory disk p) :
    v.Listed disk' p j entry' := by
  refine ⟨(changed.directory p).mpr known, ?_, changed.object⟩
  rw [changed.listing p known, if_pos rfl]

theorem listed_of_ne (changed : v.FileChanged disk disk' p j entry')
    (here : v.Listed disk c i other) (different : (c, i) ≠ (p, j)) :
    v.Listed disk' c i other := by
  refine ⟨(changed.directory c).mpr here.directory, ?_, here.object⟩
  rw [changed.listing c here.directory, if_neg different]
  exact here.here

theorem evolves (changed : v.FileChanged disk disk' p j entry') : v.Evolves disk disk' where
  formed := changed.formed
  holds holder x here := ⟨holder, changed.holds holder x here⟩
  fresh := changed.fresh

theorem refl (formed : v.WellFormed disk) (listed : v.Listed disk p j entry) :
    v.FileChanged disk disk p j entry where
  formed := formed
  directory _ := Iff.rfl
  listing c _ i := by
    split_ifs with this
    · obtain ⟨rfl, rfl⟩ := Prod.mk.inj this
      exact listed.here
    · rfl
  object := listed.object
  others _ _ _ _ _ _ := ⟨rfl, fun _ _ _ _ => rfl⟩
  holds _ _ := id
  fresh _ _ free taken := absurd free taken

theorem trans (first : v.FileChanged disk disk' p j entry')
    (second : v.FileChanged disk' disk'' p j entry'') :
    v.FileChanged disk disk'' p j entry'' where
  formed := second.formed
  directory c := (second.directory c).trans (first.directory c)
  listing c known i := by
    rw [second.listing c ((first.directory c).mpr known) i, first.listing c known i]
    split_ifs <;> rfl
  object := second.object
  others c i other here file different := by
    obtain ⟨blocks, bytes⟩ := first.others c i other here file different
    obtain ⟨blocks', bytes'⟩ :=
      second.others c i other (first.listed_of_ne here different) file different
    refine ⟨blocks'.trans blocks, fun x member t inside => ?_⟩
    rw [bytes' x (blocks.symm ▸ member) t inside, bytes x member t inside]
  holds holder x here := second.holds holder x (first.holds holder x here)
  fresh := (first.evolves.trans second.evolves).fresh

/-- Entries of the table that belong to no object may be changed before. -/
theorem after_untouched (formed : v.WellFormed disk) (frame : v.Frame disk disk' entries ∅)
    (avoid : ∀ holder x, v.Holds disk holder x → x ∉ entries)
    (changed : v.FileChanged disk' disk'' p j entry')
    (fresh : ∀ x ∈ entries, ∃ holder, v.Holds disk'' holder x) :
    v.FileChanged disk disk'' p j entry' := by
  have free := fun holder x here => And.intro (avoid holder x here) (Set.notMem_empty x)
  obtain ⟨-, same, holds⟩ := formed.untouched frame free
  refine ⟨changed.formed, fun c => (changed.directory c).trans same.directory_iff,
    fun c known i => ?_, changed.object, fun c i other here file different => ?_,
    fun holder x here => changed.holds holder x ((holds holder x).mpr here),
    (Evolves.after_untouched formed frame free changed.evolves fresh).fresh⟩
  · rw [changed.listing c (same.directory_iff.mpr known) i, same c known]
  · obtain ⟨blocks, bytes⟩ :=
      changed.others c i other (same.listed_iff.mpr here) file different
    have before := formed.objectBlocks_eq here frame fun x member =>
      avoid _ x (.object here member)
    refine ⟨blocks.trans before, fun x member t inside => ?_⟩
    rw [bytes x (before.symm ▸ member) t inside]
    exact frame.data_eq (formed.inRange here file member) id inside

end FileChanged

section

variable (formed : v.WellFormed disk) (listed : v.Listed disk p j entry)
  (file : entry.isFile = true)
include formed listed file

/-- The chain of the file grows, and data of the chain may change. -/
theorem WellFormed.fileChanged_of_grown
    (chain : v.Chain disk (v.firstCluster entry) (v.objectBlocks disk entry))
    (grown : v.Grown disk disk' (v.objectBlocks disk entry) l') :
    v.FileChanged disk disk' p j entry ∧ v.objectBlocks disk' entry = l' := by
  obtain ⟨formed', same, blocks, holds⟩ := formed.grown_file listed file chain grown
  refine ⟨⟨formed', fun c => same.directory_iff, fun c known i => ?_, listed.object,
    fun c i other here isFile different => ?_, holds, fun x known free taken => ?_⟩, blocks⟩
  · rw [same c known]
    split_ifs with this
    · obtain ⟨rfl, rfl⟩ := Prod.mk.inj this
      exact listed.here
    · rfl
  · have outside : ∀ x ∈ v.objectBlocks disk other, x ∉ l' := fun x member =>
      formed.not_mem_of_grown grown (fun y inside => .object listed inside) (.object here member)
        fun equal => different (Option.some.inj equal.symm)
    refine ⟨formed.objectBlocks_eq here grown.frame outside, fun x member t inside => ?_⟩
    have known := formed.inRange here isFile member
    exact grown.frame.data_eq known (outside x member) inside
  · by_contra nothing
    refine taken ?_
    rw [grown.frame.entry x known.2 fun member => nothing ⟨some (p, j), ?_⟩]
    · exact free
    · exact .object (same.listed_iff.mpr listed) (blocks ▸ member)

/-- The entry of the file is replaced. -/
theorem WellFormed.fileChanged_of_replaced
    (rewrites : v.Rewrites disk disk' p j (some entry')) (place : v.Placeable disk entry')
    (file' : entry'.isFile = true)
    (given : ∀ x ∈ v.objectBlocks disk entry',
      x ∈ v.objectBlocks disk entry ∨ ∀ holder, ¬ v.Holds disk holder x)
    (covers : v.objectBlocks disk entry ⊆ v.objectBlocks disk entry') :
    v.FileChanged disk disk' p j entry' ∧
      v.objectBlocks disk' entry' = v.objectBlocks disk entry' := by
  have kind : entry'.isDirectory = entry.isDirectory := by
    rw [isDirectory_eq_false file, isDirectory_eq_false file']
  obtain ⟨formed', directories, entries⟩ := formed.replaced listed rewrites place kind
    (fun isDirectory => absurd isDirectory (not_isDirectory file)) given
  obtain ⟨b, member, frame⟩ := rewrites.frame
  have blocks := (place.rewrites rewrites).1
  have listed' : v.Listed disk' p j entry' := (entries p j entry').mpr (by simp [place.1])
  refine ⟨⟨formed', directories, fun c known i =>
      formed.listing_eq_ite listed.directory rewrites known i, place.1,
      fun c i other here isFile different => ⟨?_, fun x inside t small => ?_⟩,
      fun holder x holds => ?_, fun x known free taken => ?_⟩, blocks⟩
  · exact ((formed.placeable here).rewrites rewrites).1
  · refine frame.data_eq (formed.inRange here isFile inside) (fun same => ?_) small
    rw [Set.mem_singleton_iff.mp same] at inside
    exact formed.not_mem_extent here isFile listed.directory inside member
  · cases holds with
    | root inside =>
      exact .root ((rewrites.isTable (formed.table _ (Directory.root v disk))).1.symm ▸ inside)
    | @object c i _ other here inside =>
      by_cases this : (c, i) = (p, j)
      · obtain ⟨rfl, rfl⟩ := Prod.mk.inj this
        rw [← listed.unique here] at inside
        exact .object listed' (blocks.symm ▸ covers inside)
      · refine .object ((entries c i other).mpr (by rw [if_neg this]; exact here)) ?_
        rw [((formed.placeable here).rewrites rewrites).1]
        exact inside
  · rw [frame.entry x known.2 id] at taken
    exact absurd free taken

end

/-- A byte of a file. -/
def fileByte (v : Volume) (disk : Bytes) (entry : DirectoryEntry) (position : ℕ) : UInt8 :=
  v.content disk (v.objectBlocks disk entry) position

/-- The size and the data of a file are as before. -/
structure Unaltered (v : Volume) (disk disk' : Bytes) (entry entry' : DirectoryEntry) : Prop where
  size : entry'.fileSize = entry.fileSize
  kept : ∀ position < entry.fileSize.toNat,
    v.fileByte disk' entry' position = v.fileByte disk entry position

theorem Unaltered.trans (first : v.Unaltered disk disk' entry entry')
    (second : v.Unaltered disk' disk'' entry' entry'') : v.Unaltered disk disk'' entry entry'' where
  size := second.size.trans first.size
  kept position inside := by
    rw [second.kept position (first.size ▸ inside), first.kept position inside]

theorem Sound.content_of_prefix (sound : v.Sound) {l : List ℕ} {position : ℕ} (starts : l <+: l')
    (inside : position < l.length * v.clusterSize) :
    v.content disk l' position = v.content disk l position := by
  obtain ⟨rest, rfl⟩ := starts
  have index : position / v.clusterSize < l.length := by
    rw [Nat.div_lt_iff_lt_mul sound.clusterSize_pos]
    exact inside
  unfold content
  rw [List.getD_append _ _ _ _ index]

/-- Extending the chain of a file does not alter it. -/
theorem Sound.unaltered_of_grown (sound : v.Sound) (fine : v.FileSound disk entry)
    (grown : v.Grown disk disk' (v.objectBlocks disk entry) l')
    (same : ∀ x ∈ v.objectBlocks disk entry, ∀ t < v.clusterSize,
      v.data disk' x t = v.data disk x t)
    (blocks : v.objectBlocks disk' entry = l') : v.Unaltered disk disk' entry entry where
  size := rfl
  kept position inside := by
    have small := lt_of_lt_of_le inside fine.2
    unfold fileByte
    rw [blocks, sound.content_of_prefix grown.starts small]
    exact sound.content_congr same small

/-- Two entries for the same file: they may differ in the first cluster and the
size. -/
def SameFile (entry entry' : DirectoryEntry) : Prop :=
  entry'.filename = entry.filename ∧ entry'.attributes = entry.attributes

section

variable (same : SameFile entry entry')
include same

theorem SameFile.isFile_eq : entry'.isFile = entry.isFile := by
  unfold DirectoryEntry.isFile
  rw [same.2]

theorem SameFile.isDirectory_eq : entry'.isDirectory = entry.isDirectory := by
  unfold DirectoryEntry.isDirectory
  rw [same.2]

theorem SameFile.isFree_eq : entry'.isFree = entry.isFree := by
  unfold DirectoryEntry.isFree
  rw [same.1]

theorem SameFile.isFurtherEntriesFree_eq :
    entry'.isFurtherEntriesFree = entry.isFurtherEntriesFree := by
  unfold DirectoryEntry.isFurtherEntriesFree
  rw [same.1]

theorem SameFile.isObject (object : IsObject entry) : IsObject entry' := by
  unfold IsObject at *
  rw [same.isFile_eq, same.isDirectory_eq, same.1]
  exact object

end

section

variable (sound : v.Sound) (fits : v.Fits) (formed : v.WellFormed disk)
  (listed : v.Listed disk p j entry)
include sound fits formed listed

/-- Writing another entry for the same file into its slot. -/
theorem Sound.run_update_sameFile (same : SameFile entry entry') :
    ∃ disk', (v.updateDirectoryEntry p (j * kEntrySize) entry').run disk = .ok () disk' ∧
      v.Rewrites disk disk' p j (some entry') := by
  obtain ⟨-, used, going, -⟩ := live_eq_some listed.here
  rw [← same.isFurtherEntriesFree_eq] at going
  obtain ⟨disk', run, rewrites⟩ := sound.run_update fits.rootFits
    (formed.table p listed.directory) listed.here going
  rw [kept, same.isFree_eq, used] at rewrites
  exact ⟨disk', run, rewrites⟩

/-- A file without clusters is given its first one. -/
theorem Sound.run_ensureFirstCluster (file : entry.isFile = true) :
    (v.ensureFirstCluster ⟨entry, p, j * kEntrySize⟩).run disk = .ok none disk ∨
      ∃ entry' disk', (v.ensureFirstCluster ⟨entry, p, j * kEntrySize⟩).run disk =
          .ok (some (entry', v.firstCluster entry')) disk' ∧
        v.FileChanged disk disk' p j entry' ∧ SameFile entry entry' ∧
        v.Unaltered disk disk' entry entry' ∧
        v.Chain disk' (v.firstCluster entry') (v.objectBlocks disk' entry') := by
  unfold ensureFirstCluster
  by_cases none : v.firstCluster entry = 0
  · have empty : v.objectBlocks disk entry = [] := if_pos ⟨file, none⟩
    have allocated := sound.run_allocateCluster disk
    rw [if_pos none]
    cases found : v.firstFree disk with
    | none =>
      rw [found] at allocated
      rw [run_bind allocated]
      exact .inl rfl
    | some free =>
      rw [found] at allocated
      obtain ⟨known, unused⟩ := firstFree_eq_some found
      obtain ⟨chain, frame⟩ := sound.chain_allocated fits found
      have positive : (2 : ℕ) ≤ free := known.1
      have first : v.firstCluster (entry.setFirstCluster free) = free :=
        firstCluster_setFirstCluster entry (known.2.trans sound.clusters_lt)
      obtain ⟨formed₁, same, holds⟩ := formed.untouched frame fun holder x here =>
        ⟨fun equal => formed.not_holds_of_free known unused
          (Set.mem_singleton_iff.mp equal ▸ here), id⟩
      have listed₁ := same.listed_iff.mpr listed
      have sameFile : SameFile entry (entry.setFirstCluster free) := ⟨rfl, rfl⟩
      have blocks : v.objectBlocks (v.putEntry disk free v.kEOC) (entry.setFirstCluster free) =
          [free] := by
        rw [objectBlocks, first, if_neg (by omega), chain.extent_eq]
      have size : entry.fileSize.toNat = 0 := by
        have room := (formed.file p j entry listed file).2
        rw [empty, List.length_nil] at room
        omega
      have place : v.Placeable (v.putEntry disk free v.kEOC) (entry.setFirstCluster free) := by
        refine ⟨sameFile.isObject listed.object, fun _ => ⟨.inr ?_, ?_⟩, fun kind => ?_⟩
        · rw [blocks, first]
          exact chain
        · change entry.fileSize.toNat ≤ _
          omega
        · exact absurd kind (not_isDirectory file)
      obtain ⟨disk', run, rewrites⟩ := sound.run_update_sameFile fits formed₁ listed₁ sameFile
      have file' := sameFile.isFile_eq.trans file
      obtain ⟨changed, blocks'⟩ := formed₁.fileChanged_of_replaced listed₁ file rewrites place
        file' (fun x member => .inr fun holder here => by
          rw [blocks, List.mem_singleton] at member
          exact formed.not_holds_of_free known unused (member ▸ (holds holder x).mp here))
        (by
          rw [((formed.file p j entry listed file).of_frame file frame
            (by rw [empty]; simp)).1, empty]
          exact List.nil_subset _)
      refine .inr ⟨entry.setFirstCluster free, disk', ?_, ?_, sameFile,
        ⟨rfl, fun position inside => by omega⟩, ?_⟩
      · rw [run_bind allocated, if_neg (by omega), run_bind run, first]
        rfl
      · refine .after_untouched formed frame (fun holder x here equal => ?_) changed
          fun x equal => ⟨some (p, j), .object (changed.listed listed₁.directory) ?_⟩
        · exact formed.not_holds_of_free known unused (Set.mem_singleton_iff.mp equal ▸ here)
        · rw [blocks', blocks, Set.mem_singleton_iff.mp equal]
          exact List.mem_singleton_self free
      · obtain ⟨b, -, touched⟩ := rewrites.frame
        rw [blocks', blocks, first]
        exact chain.frame touched fun _ _ => id
  · rw [if_neg none]
    exact .inr ⟨entry, disk, rfl, .refl formed listed, ⟨rfl, rfl⟩, ⟨rfl, fun _ _ => rfl⟩,
      (formed.file p j entry listed file).1.resolve_left none⟩

end

/-- Writing from a cluster of a chain on is writing to the chain. -/
theorem Sound.written_append (sound : v.Sound) {start : ℕ} {l m' : List ℕ}
    (chain : v.Chain disk start l) (inside : count < l.length) {size : ℕ}
    (written : v.Written disk disk' (l.drop count) m' offset buffer size) :
    v.Written disk disk' l (l.take count ++ m') (count * v.clusterSize + offset) buffer size := by
  have front : (l.take count).length = count := List.length_take_of_le inside.le
  obtain ⟨rest, shape⟩ := (chain.drop_of_lt inside).exists_cons
  have split : l.take count ++ l.getD count 0 :: rest = l := by
    rw [← shape, List.take_append_drop]
  have grown := written.grown
  rw [shape] at grown
  have untouched : ∀ x ∈ l.take count, x ∉ m' := fun x before =>
    grown.not_mem_of_before (split.symm ▸ chain) before
  have whole := grown.append_left (l.take count)
  rw [split] at whole
  refine ⟨whole, written.positive, written.atMost, ?_, fun position small => ?_, written.full,
    fun room => ?_⟩
  · have room := written.room
    rw [List.length_append, front, Nat.add_mul]
    omega
  · by_cases before : position < count * v.clusterSize
    · rw [if_neg (by omega)]
      have part : position < (l.take count).length * v.clusterSize := by rwa [front]
      have starts : l.take count <+: l.take count ++ m' := List.prefix_append _ _
      rw [sound.content_of_prefix starts part, sound.content_of_prefix starts part]
      refine sound.content_congr (fun x member t below => ?_) part
      exact written.grown.frame.data_eq (chain.inRange x (List.mem_of_mem_take member))
        (untouched x member) below
    · obtain ⟨rest, rfl⟩ := Nat.exists_eq_add_of_le (not_lt.mp before)
      have tail : (l.take count ++ m').drop count = m' := List.drop_left' front
      rw [List.length_append, front, Nat.add_mul] at small
      rw [← sound.content_drop, ← sound.content_drop, tail,
        written.written rest (by omega)]
      have shift : count * v.clusterSize + rest - (count * v.clusterSize + offset) =
          rest - offset := by omega
      rw [shift]
      congr 1
      exact propext (by omega)
  · have tail : offset + buffer.length ≤ (l.drop count).length * v.clusterSize := by
      rw [List.length_drop, Nat.sub_mul]
      omega
    obtain ⟨rfl, frame⟩ := written.kept tail
    refine ⟨List.take_append_drop count l, frame.mono (fun _ => id) fun x member => ?_⟩
    exact List.mem_of_mem_drop member

/-- The entry and the data of a file after bytes were written to it. -/
structure Stored (v : Volume) (disk disk' : Bytes) (entry entry' : DirectoryEntry) (offset : ℕ)
    (buffer : List UInt8) (count : ℕ) : Prop where
  atMost : count ≤ buffer.length
  size : entry'.fileSize.toNat = max entry.fileSize.toNat (offset + count)
  written : ∀ i < count, v.fileByte disk' entry' (offset + i) = buffer.getD i 0
  kept : ∀ position < entry.fileSize.toNat, ¬ (offset ≤ position ∧ position < offset + count) →
    v.fileByte disk' entry' position = v.fileByte disk entry position

variable (sound : v.Sound) (fits : v.Fits) (formed : v.WellFormed disk)
  (listed : v.Listed disk p j entry) (file : entry.isFile = true)
include sound fits formed listed file

/-- Recording the size of a file after data was written to its chain. -/
theorem Sound.run_updateSize {size : ℕ}
    (room : size ≤ (v.objectBlocks disk entry).length * v.clusterSize) :
    ∃ disk' entry',
      (if size ≠ entry.fileSize.toNat then
        EStateM.run (v.updateDirectoryEntry p (j * kEntrySize)
          { entry with fileSize := UInt32.ofNat size }) disk = .ok () disk'
      else disk' = disk) ∧
      v.FileChanged disk disk' p j entry' ∧ SameFile entry entry' ∧
      entry'.fileSize.toNat = size % 2 ^ 32 ∧ v.firstCluster entry' = v.firstCluster entry ∧
      v.objectBlocks disk' entry' = v.objectBlocks disk entry ∧
      v.Frame disk disk' ∅ {x | x ∈ v.extent disk p} := by
  by_cases same : size = entry.fileSize.toNat
  · refine ⟨disk, entry, ?_, .refl formed listed, ⟨rfl, rfl⟩, ?_, rfl, rfl,
      Frame.refl v disk⟩
    · rw [if_neg (not_not.mpr same)]
    · rw [same, Nat.mod_eq_of_lt entry.fileSize.toNat_lt]
  · have sameFile : SameFile entry { entry with fileSize := UInt32.ofNat size } := ⟨rfl, rfl⟩
    have file' := sameFile.isFile_eq.trans file
    have blocks : v.objectBlocks disk { entry with fileSize := UInt32.ofNat size } =
        v.objectBlocks disk entry := rfl
    have value : (UInt32.ofNat size).toNat = size % 2 ^ 32 := UInt32.toNat_ofNat'
    have place : v.Placeable disk { entry with fileSize := UInt32.ofNat size } := by
      refine ⟨sameFile.isObject listed.object, fun _ => ⟨?_, ?_⟩, fun kind => ?_⟩
      · exact (formed.file p j entry listed file).1
      · exact (Nat.mod_le _ _).trans room
      · exact absurd kind (not_isDirectory file)
    obtain ⟨disk', run, rewrites⟩ := sound.run_update_sameFile fits formed listed sameFile
    obtain ⟨changed, blocks'⟩ := formed.fileChanged_of_replaced listed file rewrites place file'
      (fun x member => .inl member) (fun x => id)
    obtain ⟨b, member, frame⟩ := rewrites.frame
    refine ⟨disk', _, ?_, changed, sameFile, value, rfl, blocks'.trans blocks,
      frame.mono (fun _ => id) fun x equal => Set.mem_singleton_iff.mp equal ▸ member⟩
    rw [if_pos same]
    exact run

/-- `WriteFileData_` stores a part of the buffer, or fails without altering the file. -/
theorem Sound.run_writeFileData (nonempty : buffer ≠ []) :
    ∃ result disk' entry',
      (v.writeFileData ⟨entry, p, j * kEntrySize⟩ buffer offset).run disk =
        .ok result disk' ∧
      v.FileChanged disk disk' p j entry' ∧ SameFile entry entry' ∧
      (result = .error .diskFull ∧ v.Unaltered disk disk' entry entry' ∨
        ∃ count, result = .ok count ∧ count ≤ buffer.length ∧ (offset + count < 2 ^ 32 →
          v.Stored disk disk' entry entry' offset buffer count)) := by
  unfold writeFileData
  rcases sound.run_ensureFirstCluster fits formed listed file with failed |
    ⟨entry₁, disk₁, run₁, changed₁, same₁, unaltered₁, chain₁⟩
  · rw [run_bind failed]
    exact ⟨_, disk, entry, rfl, .refl formed listed, ⟨rfl, rfl⟩,
      .inl ⟨rfl, rfl, fun _ _ => rfl⟩⟩
  · have listed₁ := changed₁.listed listed.directory
    have file₁ := same₁.isFile_eq.trans file
    have fine₁ := changed₁.formed.file p j entry₁ listed₁ file₁
    obtain ⟨cluster, disk₂, l₂, run₂, grown₂, frame₂, found⟩ :=
      sound.run_ensureClusterChain fits chain₁ (offset / v.clusterSize)
    obtain ⟨changed₂, blocks₂⟩ :=
      changed₁.formed.fileChanged_of_grown listed₁ file₁ chain₁ grown₂
    have unaltered₂ := unaltered₁.trans (sound.unaltered_of_grown fine₁ grown₂
      (fun x member t inside =>
        frame₂.data_eq (changed₁.formed.inRange listed₁ file₁ member) id inside) blocks₂)
    have changed := changed₁.trans changed₂
    rw [run_bind run₁]
    rw [run_bind run₂]
    rcases found with ⟨inside, rfl⟩ | ⟨rfl, -⟩
    · have listed₂ := changed₂.listed listed₁.directory
      have chain₂ := grown₂.links _ chain₁
      have positive : l₂.getD (offset / v.clusterSize) 0 ≠ 0 := by
        intro zero
        have known := (chain₂.drop_of_lt inside).inRange _ (chain₂.drop_of_lt inside).start_mem
        rw [zero] at known
        exact absurd known.1 (by decide)
      obtain ⟨count, disk₃, m', run₃, part⟩ := sound.run_writeToClusterChain
        (chain₂.drop_of_lt inside) (Nat.mod_lt offset sound.clusterSize_pos) fits nonempty
      have written := sound.written_append chain₂ inside part
      rw [Nat.div_add_mod'] at written
      rw [← blocks₂] at chain₂ written
      obtain ⟨changed₃, blocks₃⟩ :=
        changed₂.formed.fileChanged_of_grown listed₂ file₁ chain₂ written.grown
      have listed₃ := changed₃.listed listed₂.directory
      have fine₃ := changed₃.formed.file p j entry₁ listed₃ file₁
      obtain ⟨disk₄, entry₄, run₄, changed₄, same₄, size₄, -, blocks₄, frame₄⟩ :=
        sound.run_updateSize fits changed₃.formed listed₃ file₁
          (max_le fine₃.2 (blocks₃ ▸ written.room))
      refine ⟨.ok count, disk₄, entry₄, ?_, (changed.trans changed₃).trans changed₄,
        ⟨same₄.1.trans same₁.1, same₄.2.trans same₁.2⟩,
        .inr ⟨count, rfl, written.atMost, fun bounded => ?_⟩⟩
      · rw [if_neg positive, run_bind run₃]
        by_cases grew : max entry₁.fileSize.toNat (offset + count) ≠ entry₁.fileSize.toNat
        · rw [if_pos grew] at run₄ ⊢
          rw [run_bind run₄]
          rfl
        · rw [if_neg grew] at run₄ ⊢
          rw [run₄]
          rfl
      · have bytes₄ : ∀ position < (v.objectBlocks disk₃ entry₁).length * v.clusterSize,
            v.fileByte disk₄ entry₄ position = v.fileByte disk₃ entry₁ position := by
          intro position room
          unfold fileByte
          rw [blocks₄]
          refine sound.content_congr (fun x member t below => ?_) room
          exact frame₄.data_eq (changed₃.formed.inRange listed₃ file₁ member)
            (changed₃.formed.not_mem_extent listed₃ file₁ listed₃.directory member) below
        rw [blocks₃] at bytes₄
        have room₂ := (changed₂.formed.file p j entry₁ listed₂ file₁).2
        refine ⟨written.atMost, ?_, fun i below => ?_, fun position below outside => ?_⟩
        · rw [size₄, Nat.mod_eq_of_lt (max_lt entry₁.fileSize.toNat_lt bounded), unaltered₁.size]
        · have room := written.room
          rw [bytes₄ _ (by omega), fileByte, blocks₃, written.written _ (by omega),
            if_pos (by omega), Nat.add_sub_cancel_left]
        · rw [← unaltered₁.size] at below
          have short : position < (v.objectBlocks disk₂ entry₁).length * v.clusterSize := by omega
          have room := lt_of_lt_of_le short
            (Nat.mul_le_mul_right v.clusterSize written.grown.starts.length_le)
          rw [bytes₄ _ room, fileByte, blocks₃, written.written _ room, if_neg outside,
            sound.content_of_prefix written.grown.starts short]
          exact unaltered₂.kept position (unaltered₁.size ▸ below)
    · exact ⟨_, disk₂, entry₁, rfl, changed, same₁, .inl ⟨rfl, unaltered₂⟩⟩

end AlkOS.Fat.Volume
