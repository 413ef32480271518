import AlkOS.Fs.Fat.Writing

/-!
# Operations on the tree

What creating, moving and deleting entries does to a well-formed volume: the tree
stays well formed, and a cluster that is taken belongs to an object afterwards.
-/

namespace AlkOS.Fat.Volume

open Kernel Vfs Relation

variable {v : Volume} {disk disk' middle : Bytes} {c i j k p q x first : ℕ}
  {entry entry' old other : DirectoryEntry} {name : ShortName} {attributes : UInt8}
  {entries blocks : Set ℕ} {new : Option DirectoryEntry} {free : ℕ}

/-- The table entries stay, and every object is found again in some slot. -/
theorem WellFormed.evolves_of_frame (formed : v.WellFormed disk)
    (frame : v.Frame disk disk' ∅ blocks) (formed' : v.WellFormed disk')
    (kept : ∀ c i other, v.Listed disk c i other →
      ∃ c' i' other', v.Listed disk' c' i' other' ∧
        v.objectBlocks disk other' = v.objectBlocks disk other ∧ v.Placeable disk other') :
    v.Evolves disk disk' := by
  refine ⟨formed', fun holder x holds => ?_, fun x known free taken => ?_⟩
  · cases holds with
    | root member =>
      refine ⟨none, .root ?_⟩
      rw [(frame.extent_eq (formed.table _ (Directory.root v disk)) fun _ _ => id).1]
      exact member
    | @object c i _ other listed member =>
      obtain ⟨c', i', other', listed', blocks, place⟩ := kept c i other listed
      refine ⟨some (c', i'), .object listed' ?_⟩
      rw [(place.frame frame).1, blocks]
      exact member
  · rw [frame.entry x known.2 id] at taken
    exact absurd free taken

section

variable (formed : v.WellFormed disk) (directory : v.Directory disk p)
  (grown : middle = disk ∨ v.TableGrown disk middle p)
include formed directory grown

/-- A table that has grown, or not, before an entry is created. -/
theorem WellFormed.evolves_of_grown :
    v.Evolves disk middle ∧ v.SameTree disk middle := by
  rcases grown with rfl | grown
  · exact ⟨.refl formed, fun _ _ => rfl⟩
  · obtain ⟨formed', same, holds, -⟩ := formed.grown_table directory grown
    refine ⟨⟨formed', fun holder x here => ⟨holder, holds holder x here⟩,
      fun x known free taken => ?_⟩, same⟩
    obtain ⟨holder, hosts⟩ := (same.directory_iff.mpr directory).exists_hosts
    by_contra nothing
    refine taken ?_
    rw [grown.grown.frame.entry x known.2 fun member => nothing ⟨holder, hosts.holds member⟩]
    exact free

/-- A cluster that belongs to nothing is left alone when a table grows. -/
theorem WellFormed.not_holds_of_grown (taken : v.entry disk x ≠ 0)
    (spare : ∀ holder, ¬ v.Holds disk holder x) :
    x ∉ v.extent middle p ∧ ∀ holder, ¬ v.Holds middle holder x := by
  have away : x ∉ v.extent disk p := by
    intro member
    obtain ⟨holder, hosts⟩ := directory.exists_hosts
    exact spare holder (hosts.holds member)
  rcases grown with rfl | grown
  · exact ⟨away, spare⟩
  · have outside : x ∉ v.extent middle p := by
      intro member
      rcases grown.grown.fresh x member with inside | ⟨-, free⟩
      · exact away inside
      · exact taken free
    obtain ⟨-, -, -, back⟩ := formed.grown_table directory grown
    exact ⟨outside, fun holder holds => (back holder x holds).elim (spare holder) outside⟩

end

theorem isFile_renewed_archive (old : DirectoryEntry) (name : ShortName) (first : ℕ) :
    (old.renewed name Attributes.archive first).isFile = true := by
  change (Attributes.archive &&& (Attributes.directory ||| Attributes.volumeLabel) == 0) = true
  decide

theorem firstCluster_renewed (old : DirectoryEntry) (name : ShortName) (attributes : UInt8)
    (small : first < 2 ^ v.variant.clusterBits) :
    v.firstCluster (old.renewed name attributes first) = first :=
  firstCluster_setFirstCluster old small

/-- A name that can be created: neither `.` nor `..`, and no end mark. -/
def Creatable (name : ShortName) : Prop := name ≠ kDot ∧ name ≠ kDotDot ∧ name 0 ≠ kEOD

theorem not_isObject_of_none (was : v.listing disk p j = none) :
    ∀ other ∈ v.listing disk p j, ¬ IsObject other := fun _ here => nomatch was.symm.trans here

/-- Objects stay where they are when a slot without one is rewritten. -/
theorem WellFormed.evolves_of_entered (formed : v.WellFormed disk)
    (was : ∀ other ∈ v.listing disk p j, ¬ IsObject other)
    (rewrites : v.Rewrites disk disk' p j new) (formed' : v.WellFormed disk')
    (entries : v.Relists disk disk' p j new) :
    v.Evolves disk disk' := by
  obtain ⟨b, -, frame⟩ := rewrites.frame
  refine formed.evolves_of_frame frame formed' fun c i other listed =>
    ⟨c, i, other, (entries c i other).mpr ?_, rfl, formed.placeable listed⟩
  rw [if_neg]
  · exact listed
  · intro this
    obtain ⟨rfl, rfl⟩ := Prod.mk.inj this
    exact was other listed.here listed.object

/-- A slot that has no object before or afterwards. -/
theorem WellFormed.evolves_of_nothing (formed : v.WellFormed disk) (directory : v.Directory disk p)
    (was : ∀ other ∈ v.listing disk p j, ¬ IsObject other)
    (rewrites : v.Rewrites disk disk' p j new) (nothing : ∀ other ∈ new, ¬ IsObject other) :
    v.Evolves disk disk' ∧ ∀ c, v.Directory disk' c ↔ v.Directory disk c := by
  obtain ⟨formed', directories, entries⟩ := formed.rewritten_same directory rewrites
    (fun other here object => absurd object (nothing other here))
    (fun other here object => absurd object (nothing other here)) fun m =>
      ⟨fun ⟨other, here, object, _⟩ => absurd object (nothing other here),
        fun ⟨other, here, _⟩ => absurd here.object (was other here.here)⟩
  exact ⟨formed.evolves_of_entered was rewrites formed' entries, directories⟩

/-- `CreateEntry_` for a new file. -/
theorem Sound.run_createEntry_file (sound : v.Sound) (fits : v.Fits) (formed : v.WellFormed disk)
    (directory : v.Directory disk p) (closed : v.Closed disk p) (fine : Creatable name) :
    (v.createEntry p name Attributes.archive 0).run disk = .ok (.error .diskFull) disk ∨
      ∃ disk', (v.createEntry p name Attributes.archive 0).run disk = .ok (.ok ()) disk' ∧
        v.Evolves disk disk' := by
  rcases sound.run_createEntry_entered fits (formed.table p directory) closed fine.2.2 with
    failed | ⟨middle, disk', j, old, run, grown, was, rewrites⟩
  · exact .inl failed
  · obtain ⟨evolves, same⟩ := formed.evolves_of_grown directory grown
    have known := same.directory_iff.mpr directory
    refine .inr ⟨disk', run, evolves.trans ?_⟩
    unfold kept at rewrites
    split_ifs at rewrites with free
    · exact (evolves.formed.evolves_of_nothing known (not_isObject_of_none was) rewrites
        fun other here => nomatch here).1
    · have file := isFile_renewed_archive old name 0
      have empty : v.objectBlocks middle (old.renewed name Attributes.archive 0) = [] :=
        if_pos ⟨file, firstCluster_renewed old name _ (Nat.two_pow_pos _)⟩
      have place : v.Placeable middle (old.renewed name Attributes.archive 0) := by
        refine ⟨⟨.inl file, fine.1, fine.2.1⟩, fun _ => ⟨.inl ?_, Nat.zero_le _⟩, fun kind => ?_⟩
        · exact firstCluster_renewed old name _ (Nat.two_pow_pos _)
        · exact absurd kind (not_isDirectory file)
      obtain ⟨formed', -, entries⟩ := evolves.formed.added_file known was rewrites place file
        (by rw [empty]; exact fun x none => nomatch none)
      exact evolves.formed.evolves_of_entered (not_isObject_of_none was) rewrites formed' entries

theorem isDirectory_renewed_directory (old : DirectoryEntry) (name : ShortName) (first : ℕ) :
    (old.renewed name Attributes.directory first).isDirectory = true := by
  change (Attributes.directory &&& (Attributes.directory ||| Attributes.volumeLabel) ==
    Attributes.directory) = true
  decide

/-- The disk with a cluster allocated and filled as the table of a new directory. -/
def prepared (v : Volume) (disk : Bytes) (parent free : ℕ) : Bytes :=
  v.putData (v.putEntry disk free v.kEOC) free
    ((Bytes.blit (fun _ => 0) 0 kEntrySize (dotEntry kDot free).encode).blit kEntrySize
      kEntrySize (dotEntry kDotDot parent).encode)

/-- Only the new cluster is written. -/
theorem Sound.frame_prepared (sound : v.Sound) (known : v.InRange free) (parent : ℕ) :
    v.Frame disk (v.prepared disk parent free) {free} {free} := by
  have first : v.Frame disk (v.putEntry disk free v.kEOC) {free} ∅ := sound.frame_putEntry known.2
  have second : v.Frame (v.putEntry disk free v.kEOC) (v.prepared disk parent free) ∅ {free} := by
    rw [prepared, ← putBlock_of_inRange known]
    exact sound.frame_putBlock (.inr known)
  exact (first.trans second).mono (by simp) (by simp)

/-- The slots of the table of a new directory. -/
theorem blockSlots_prepared (known : v.InRange free) (parent : ℕ) :
    v.blockSlots (v.prepared disk parent free) free =
      ((List.replicate (v.clusterSize / kEntrySize) DirectoryEntry.zero).set 0
        (dotEntry kDot free)).set 1 (dotEntry kDotDot parent) := by
  have twice : ∀ bytes : Bytes, slotsOf ((Bytes.blit bytes 0 kEntrySize
      (dotEntry kDot free).encode).blit kEntrySize kEntrySize (dotEntry kDotDot parent).encode)
      v.clusterSize = ((slotsOf bytes v.clusterSize).set 0 (dotEntry kDot free)).set 1
        (dotEntry kDotDot parent) := by
    intro bytes
    have outer := slotsOf_blit (Bytes.blit bytes 0 kEntrySize (dotEntry kDot free).encode)
      (dotEntry kDotDot parent) 1 v.clusterSize
    have inner := slotsOf_blit bytes (dotEntry kDot free) 0 v.clusterSize
    rw [Nat.one_mul] at outer
    rw [Nat.zero_mul] at inner
    rw [outer, inner]
  rw [prepared, ← putBlock_of_inRange known, blockSlots_putBlock, blockSize_of_inRange known,
    twice, slotsOf_zero]

/-- A new directory has no objects. -/
theorem not_isObject_prepared (known : v.InRange free) (parent : ℕ)
    (here : live (v.blockSlots (v.prepared disk parent free) free) i = some other) :
    ¬ IsObject other := by
  obtain ⟨found, -, going, -⟩ := live_eq_some here
  intro object
  rw [blockSlots_prepared known] at found
  have member := List.mem_of_getElem? found
  rcases List.mem_or_eq_of_mem_set member with inner | rfl
  · rcases List.mem_or_eq_of_mem_set inner with blank | rfl
    · rw [List.eq_of_mem_replicate blank] at going
      exact absurd going (by decide)
    · exact object.2.1 rfl
  · exact object.2.2 rfl

theorem Sound.run_initializeNewDirectory (sound : v.Sound) (disk : Bytes) (parent free : ℕ) :
    (v.initializeNewDirectory free parent).run (v.putEntry disk free v.kEOC) =
      .ok () (v.prepared disk parent free) := by
  rw [initializeNewDirectory, run_bind (run_checkBuffer sound.clusterFits _)]
  rfl

theorem kept_eq_some (visible : entry.filename 0 ≠ kDeletedEntry) : kept entry = some entry :=
  if_neg fun deleted => visible (beq_iff_eq.mp deleted)

section

variable (formed : v.WellFormed disk) (directory : v.Directory disk p)
include formed directory

/-- A directory without objects is entered. -/
theorem WellFormed.newDirectory_entered (chain : v.Chain disk free [free])
    (spare : ∀ holder, ¬ v.Holds disk holder free)
    (vacant : ∀ i other, live (v.blockSlots disk free) i = some other → ¬ IsObject other)
    (grown : middle = disk ∨ v.TableGrown disk middle p) (was : v.listing middle p j = none)
    (kind : entry.isDirectory = true) (first : v.firstCluster entry = free)
    (fine : Creatable entry.filename) (rewrites : v.Rewrites middle disk' p j (some entry)) :
    v.Evolves disk disk' ∧ ∃ holder, v.Holds disk' holder free := by
  obtain ⟨evolves, same⟩ := formed.evolves_of_grown directory grown
  obtain ⟨outside, spare'⟩ := formed.not_holds_of_grown directory grown
    (chain.entry_ne_zero chain.start_mem) spare
  have untouched : ∃ entries' blocks' : Set ℕ, v.Frame disk middle entries' blocks' ∧
      free ∉ entries' ∧ free ∉ blocks' := by
    rcases grown with rfl | grown
    · exact ⟨∅, ∅, Frame.refl v _, id, id⟩
    · exact ⟨_, _, grown.grown.frame, outside, outside⟩
  obtain ⟨entries', blocks', frame, notEntry, notBlock⟩ := untouched
  have chain' : v.Chain middle free [free] :=
    chain.frame frame (List.forall_mem_singleton.mpr notEntry)
  have blocks : v.objectBlocks middle entry = [free] := by
    rw [objectBlocks_of_directory kind, first, chain'.extent_eq]
  have place : v.Placeable middle entry := by
    refine ⟨⟨.inr kind, fine.1, fine.2.1⟩, fun file => ?_, fun _ => first.symm ▸ chain'.isTable⟩
    exact absurd kind (not_isDirectory file)
  have empty : ∀ i other, v.listing middle (v.firstCluster entry) i = some other →
      ¬ IsObject other := by
    intro i other here
    rw [first, listing, slots, chain'.extent_eq, List.flatMap_singleton, blockSlots_congr
      (frame.block free (.inr (chain.inRange free chain.start_mem)) notBlock)] at here
    exact vacant i other here
  obtain ⟨formed', -, entered⟩ := evolves.formed.added_directory
    (same.directory_iff.mpr directory) was rewrites place kind
    (by rw [blocks]; exact List.forall_mem_singleton.mpr spare') empty
  have listed : v.Listed disk' p j entry :=
    (entered p j _).mpr (by rw [if_pos rfl]; exact ⟨rfl, place.1⟩)
  refine ⟨evolves.trans (evolves.formed.evolves_of_entered (not_isObject_of_none was) rewrites
    formed' entered), some (p, j), .object listed ?_⟩
  rw [(place.rewrites rewrites).1, blocks]
  exact List.mem_singleton_self free

/-- `CreateDirectoryWithCluster_` for a name that is not read as a deleted entry. -/
theorem Sound.run_createDirectoryWithCluster (sound : v.Sound) (fits : v.Fits)
    (closed : v.Closed disk p) (fine : Creatable name) (visible : name 0 ≠ kDeletedEntry) :
    ∃ result disk', (v.createDirectoryWithCluster p name).run disk = .ok result disk' ∧
      v.WellFormed disk' ∧ (result = .ok () → v.Evolves disk disk') := by
  have allocated := sound.run_allocateCluster disk
  unfold createDirectoryWithCluster
  cases found : v.firstFree disk with
  | none =>
    rw [found] at allocated
    rw [run_bind allocated]
    exact ⟨_, disk, rfl, formed, fun _ => .refl formed⟩
  | some free =>
    rw [found] at allocated
    obtain ⟨known, unused⟩ := firstFree_eq_some found
    have positive : (2 : ℕ) ≤ free := known.1
    have frame : v.Frame disk (v.prepared disk p free) {free} {free} :=
      sound.frame_prepared known p
    have spare : ∀ holder, ¬ v.Holds disk holder free := fun holder =>
      formed.not_holds_of_free known unused
    have avoid : ∀ holder x, v.Holds disk holder x →
        x ∉ ({free} : Set ℕ) ∧ x ∉ ({free} : Set ℕ) := by
      intro holder x here
      have other : x ∉ ({free} : Set ℕ) := fun equal =>
        spare holder (Set.mem_singleton_iff.mp equal ▸ here)
      exact ⟨other, other⟩
    obtain ⟨formed₁, same₁, holds₁⟩ := formed.untouched frame avoid
    have apart : ∀ b ∈ v.extent disk p, b ∉ ({free} : Set ℕ) := by
      intro b member
      obtain ⟨holder, hosts⟩ := directory.exists_hosts
      exact (avoid holder b (hosts.holds member)).1
    have table := formed.table p directory
    obtain ⟨extent₁, table₁⟩ := frame.extent_eq table apart
    have closed₁ : v.Closed (v.prepared disk p free) p := closed.congr extent₁ fun b member =>
      blockSlots_congr (frame.block b (table.isBlock member) (apart b member))
    have directory₁ := same₁.directory_iff.mpr directory
    have chain₁ : v.Chain (v.prepared disk p free) free [free] := by
      rw [prepared, ← putBlock_of_inRange known]
      exact (sound.chain_allocated fits found).1.frame (sound.frame_putBlock (.inr known))
        fun _ _ => id
    rw [run_bind allocated, if_neg (by omega),
      run_bind (sound.run_initializeNewDirectory disk p free)]
    rcases sound.run_createEntry_entered fits table₁ closed₁ fine.2.2 with
      failed | ⟨middle, disk', j, old, run, grown, was, rewrites⟩
    · exact ⟨_, _, failed, formed₁, fun absurd => nomatch absurd⟩
    · rw [kept_eq_some visible] at rewrites
      obtain ⟨evolves, holder, held⟩ := formed₁.newDirectory_entered directory₁ chain₁
        (fun holder holds => spare holder ((holds₁ holder free).mp holds))
        (fun i other => not_isObject_prepared known p) grown was
        (isDirectory_renewed_directory old name free)
        (firstCluster_renewed old name _ (known.2.trans sound.clusters_lt)) fine rewrites
      refine ⟨_, disk', run, evolves.formed, fun _ => ?_⟩
      refine .after_untouched formed frame avoid evolves fun x member => ⟨holder, ?_⟩
      rw [Set.mem_singleton_iff.mp member]
      exact held

end

theorem isFurtherEntriesFree_deleted (entry : DirectoryEntry) :
    entry.deleted.isFurtherEntriesFree = false := by
  simp [DirectoryEntry.isFurtherEntriesFree, DirectoryEntry.deleted, kDeletedEntry, kEOD]

section

variable (formed : v.WellFormed disk) (listed : v.Listed disk p j entry)
include formed listed

/-- The chain of an object that has blocks. -/
theorem WellFormed.chain :
    v.firstCluster entry = 0 ∧ v.objectBlocks disk entry = [] ∨
      v.Chain disk (v.firstCluster entry) (v.objectBlocks disk entry) := by
  rcases listed.object.1 with file | kind
  · exact (formed.file p j entry listed file).1.imp_left fun none => ⟨none, if_pos ⟨file, none⟩⟩
  · rw [objectBlocks_of_directory kind]
    refine .inr ((formed.table _ (listed.directory_of kind)).chain fun root => ?_)
    refine formed.ne_root listed kind ?_
    rw [root.2, rootCluster, if_pos root.1]

/-- `FreeClusterChain_` frees the clusters of an object. -/
theorem Sound.run_freeObject (sound : v.Sound) :
    ∃ disk', (v.freeClusterChain (v.firstCluster entry)).run disk = .ok () disk' ∧
      v.Frame disk disk' {x | x ∈ v.objectBlocks disk entry} ∅ ∧
      ∀ x ∈ v.objectBlocks disk entry, v.entry disk' x = 0 := by
  rcases formed.chain listed with ⟨none, empty⟩ | chain
  · refine ⟨disk, run_freeChainLoop_of_end (.inl none) _,
      Frame.refl v disk, ?_⟩
    rw [empty]
    exact fun x member => nomatch member
  · exact sound.run_freeClusterChain chain

/-- An object and the directory it is in have no block in common. -/
theorem WellFormed.not_mem_extent_parent (inside : x ∈ v.objectBlocks disk entry) :
    x ∉ v.extent disk p := by
  rcases listed.object.1 with file | kind
  · exact formed.not_mem_extent listed file listed.directory inside
  · intro member
    rw [objectBlocks_of_directory kind] at inside
    have same := formed.directory_eq (listed.directory_of kind) listed.directory inside member
    refine formed.acyclic listed.directory (.single ?_)
    have edge := listed.child kind
    rwa [same] at edge

/-- An entry for a file or for a directory without objects can be deleted. -/
def Removable (v : Volume) (disk : Bytes) (entry : DirectoryEntry) : Prop :=
  entry.isFile = true ∨ entry.isDirectory = true ∧
    ∀ i other, v.listing disk (v.firstCluster entry) i = some other → ¬ IsObject other

/-- A removable object leaves its slot. -/
theorem WellFormed.removed (removable : v.Removable disk entry)
    (rewrites : v.Rewrites disk disk' p j none) :
    v.WellFormed disk' ∧
      (∀ c, v.Directory disk' c →
        v.Directory disk c ∧ (entry.isDirectory = true → c ≠ v.firstCluster entry)) ∧
      v.Relists disk disk' p j none ∧
      ∀ holder x, v.Holds disk' holder x ↔ v.Holds disk holder x ∧ holder ≠ some (p, j) := by
  have result : v.WellFormed disk' ∧ (∀ c, v.Directory disk' c →
      v.Directory disk c ∧ (entry.isDirectory = true → c ≠ v.firstCluster entry)) ∧
      v.Relists disk disk' p j none := by
    rcases removable with file | ⟨kind, empty⟩
    · obtain ⟨formed', directories, entries⟩ := formed.removed_file listed file rewrites
      refine ⟨formed', fun c known => ⟨(directories c).mp known, fun kind => ?_⟩, entries⟩
      exact absurd kind (not_isDirectory file)
    · obtain ⟨formed', directories, entries⟩ :=
        formed.removed_directory listed kind rewrites empty
      refine ⟨formed', fun c known => ?_, entries⟩
      exact ⟨((directories c).mp known).1, fun _ => ((directories c).mp known).2⟩
  obtain ⟨formed', directories, entries⟩ := result
  have root := (rewrites.isTable (formed.table _ (Directory.root v disk))).1
  refine ⟨formed', directories, entries, fun holder x =>
    ⟨fun holds => ?_, fun ⟨holds, different⟩ => ?_⟩⟩
  · cases holds with
    | root member => exact ⟨.root (root ▸ member), fun absurd => nomatch absurd⟩
    | @object c i _ other listed' member =>
      rw [entries] at listed'
      split_ifs at listed' with this
      · exact nomatch listed'.1
      · rw [((formed.placeable listed').rewrites rewrites).1] at member
        exact ⟨.object listed' member, fun same => this (Option.some.inj same)⟩
  · cases holds with
    | root member => exact .root (root.symm ▸ member)
    | @object c i _ other listed' member =>
      refine .object ((entries c i other).mpr ?_) ?_
      · rw [if_neg fun this => different (congrArg some this)]
        exact listed'
      · rw [((formed.placeable listed').rewrites rewrites).1]
        exact member

/-- The object in a slot was deleted: its clusters are free, and all else is as before. -/
structure Deleted (v : Volume) (disk disk' : Bytes) (p j : ℕ) (entry : DirectoryEntry) :
    Prop where
  formed : v.WellFormed disk'
  links : ∀ x, v.InRange x → v.entry disk' x =
    if x ∈ v.objectBlocks disk entry then 0 else v.entry disk x
  slots : ∀ c, v.Directory disk' c → v.slots disk' c =
    if c = p then (v.slots disk p).set j entry.deleted else v.slots disk c
  others : ∀ c i other, v.Listed disk c i other → (c, i) ≠ (p, j) →
    v.Listed disk' c i other ∧ (other.isFile = true → v.Unaltered disk disk' other other)

/-- `DeleteEntry_` frees the clusters of an object and removes its entry. -/
theorem Sound.run_deleteEntry (sound : v.Sound) (fits : v.RootFits)
    (removable : v.Removable disk entry) :
    ∃ disk', (v.deleteEntry ⟨entry, p, j * kEntrySize⟩).run disk = .ok (.ok ()) disk' ∧
      v.Deleted disk disk' p j entry ∧ (v.Accounted disk ∅ → v.Accounted disk' ∅) := by
  obtain ⟨disk₁, freed, frame₁, zero⟩ := sound.run_freeObject formed listed
  obtain ⟨middle, disk', b, member, updated, rewrites, frame, frame₂, slots⟩ :=
    sound.run_update_after fits (formed.table p listed.directory) listed.here
      (isFurtherEntriesFree_deleted entry) frame₁
      fun b member inside => formed.not_mem_extent_parent listed inside member
  obtain ⟨formed₁, directories, entries, holds₁⟩ := formed.removed listed removable rewrites
  have mine : ∀ holder x, v.Holds middle holder x → x ∉ v.objectBlocks disk entry := by
    intro holder x holds inside
    obtain ⟨before, different⟩ := (holds₁ holder x).mp holds
    exact different (formed.apart holder _ x before (.object listed inside))
  obtain ⟨formed', tree, holds'⟩ := formed₁.untouched frame fun holder x holds =>
    ⟨mine holder x holds, id⟩
  have whole : v.Frame disk disk' {x | x ∈ v.objectBlocks disk entry} {b} :=
    (frame₁.trans frame₂).mono (by simp) (by simp)
  have links : ∀ x, v.InRange x → v.entry disk' x =
      if x ∈ v.objectBlocks disk entry then 0 else v.entry disk x := by
    intro x known
    split_ifs with inside
    · rw [frame₂.entry x known.2 id, zero x inside]
    · exact whole.entry x known.2 inside
  refine ⟨disk', ?_, ⟨formed', links, fun c known => ?_, fun c i other listed' different => ?_⟩,
    fun full x known taken => ?_⟩
  · rw [deleteEntry, run_bind freed, run_bind updated]
    rfl
  · split_ifs with here
    · rw [here, slots]
    · have other := directories c (tree.directory_iff.mp known)
      refine whole.slots_eq (formed.table c other.1) (fun x inside object => ?_)
        fun x inside same => ?_
      · rcases listed.object.1 with file | kind
        · exact formed.not_mem_extent listed file other.1 object inside
        · rw [objectBlocks_of_directory kind] at object
          exact other.2 kind (formed.directory_eq other.1 (listed.directory_of kind) inside object)
      · rw [Set.mem_singleton_iff.mp same] at inside
        exact here (formed.directory_eq other.1 listed.directory inside member)
  · have again : v.Listed middle c i other := (entries c i other).mpr (by rwa [if_neg different])
    refine ⟨tree.listed_iff.mpr again, fun file => ⟨rfl, fun position small => ?_⟩⟩
    have apart : ∀ x ∈ v.objectBlocks disk other, x ∉ v.objectBlocks disk entry := by
      intro x here there
      exact different (Option.some.inj
        (formed.apart _ _ x (.object listed' here) (.object listed there)))
    unfold fileByte
    rw [formed.objectBlocks_eq listed' whole apart]
    refine sound.content_congr (fun x inside t below => ?_)
      (lt_of_lt_of_le small (formed.file c i other listed' file).2)
    refine whole.data_eq (formed.inRange listed' file inside) (fun same => ?_) below
    rw [Set.mem_singleton_iff.mp same] at inside
    exact formed.not_mem_extent listed' file listed.directory inside member
  · have outside : x ∉ v.objectBlocks disk entry := fun inside =>
      taken (by rw [links x known, if_pos inside])
    rw [links x known, if_neg outside] at taken
    obtain ⟨holder, holds⟩ := (full x known taken).resolve_left id
    refine .inr ⟨holder, (holds' holder x).mpr ((holds₁ holder x).mpr ⟨holds, fun equal => ?_⟩)⟩
    subst equal
    cases holds with
    | object again member =>
      rw [← listed.unique again] at member
      exact outside member

end

/-- Files keep their clusters and data. -/
def FilesKept (v : Volume) (disk disk' : Bytes) : Prop :=
  ∀ c i other, v.Listed disk c i other → other.isFile = true →
    v.objectBlocks disk' other = v.objectBlocks disk other ∧
      ∀ x ∈ v.objectBlocks disk other, ∀ t < v.clusterSize, v.data disk' x t = v.data disk x t

theorem FilesKept.trans (first : v.FilesKept disk middle) (same : v.SameTree disk middle)
    (second : v.FilesKept middle disk') : v.FilesKept disk disk' := by
  intro c i other listed file
  obtain ⟨blocks, bytes⟩ := first c i other listed file
  obtain ⟨blocks', bytes'⟩ := second c i other (same.listed_iff.mpr listed) file
  refine ⟨blocks'.trans blocks, fun x member t inside => ?_⟩
  rw [bytes' x (blocks.symm ▸ member) t inside, bytes x member t inside]

/-- Changes to directory tables do not touch files. -/
theorem WellFormed.filesKept_of_tables (formed : v.WellFormed disk)
    (frame : v.Frame disk disk' entries blocks)
    (apart : ∀ c i other, v.Listed disk c i other → other.isFile = true →
      ∀ x ∈ v.objectBlocks disk other, x ∉ entries ∧ x ∉ blocks) : v.FilesKept disk disk' := by
  intro c i other listed file
  refine ⟨formed.objectBlocks_eq listed frame fun x member =>
    (apart c i other listed file x member).1, fun x member t inside => ?_⟩
  exact frame.data_eq (formed.inRange listed file member)
    (apart c i other listed file x member).2 inside

/-- Files are kept when a table grows. -/
theorem WellFormed.filesKept_of_grown (formed : v.WellFormed disk)
    (directory : v.Directory disk p) (grown : middle = disk ∨ v.TableGrown disk middle p) :
    v.FilesKept disk middle := by
  rcases grown with rfl | grown
  · exact fun _ _ _ _ _ => ⟨rfl, fun _ _ _ _ => rfl⟩
  · obtain ⟨host, hosts⟩ := directory.exists_hosts
    refine formed.filesKept_of_tables grown.grown.frame fun c i other listed file x member => ?_
    have outside := formed.not_mem_of_grown grown.grown (fun y inside => hosts.holds inside)
      (.object listed member) (hosts.ne_of_file listed file)
    exact ⟨outside, outside⟩

/-- An entry was moved from one slot to another, or changed in its slot. -/
structure Moved (v : Volume) (disk disk' : Bytes) (p j q k : ℕ) (entry' : DirectoryEntry) :
    Prop where
  evolves : v.Evolves disk disk'
  directory : ∀ c, v.Directory disk' c ↔ v.Directory disk c
  target : v.Directory disk q
  vacant : (q, k) = (p, j) ∨ v.listing disk q k = none
  listing : ∀ c, v.Directory disk c → ∀ i, v.listing disk' c i =
    if (c, i) = (q, k) then some entry' else if (c, i) = (p, j) then none else v.listing disk c i
  files : v.FilesKept disk disk'

/-- An entry for the same object. -/
structure SameObject (v : Volume) (entry entry' : DirectoryEntry) : Prop where
  attributes : entry'.attributes = entry.attributes
  first : v.firstCluster entry' = v.firstCluster entry

namespace SameObject

variable (same : v.SameObject entry entry')
include same

theorem isFile_eq : entry'.isFile = entry.isFile := by
  unfold DirectoryEntry.isFile
  rw [same.attributes]

theorem isDirectory_eq : entry'.isDirectory = entry.isDirectory := by
  unfold DirectoryEntry.isDirectory
  rw [same.attributes]

theorem objectBlocks_eq (disk : Bytes) :
    v.objectBlocks disk entry' = v.objectBlocks disk entry := by
  unfold objectBlocks
  rw [same.isFile_eq, same.first]

theorem isObject_iff (fine : Creatable entry'.filename)
    (plain : entry.filename ≠ kDot ∧ entry.filename ≠ kDotDot) :
    IsObject entry' ↔ IsObject entry := by
  unfold IsObject
  rw [same.isFile_eq, same.isDirectory_eq]
  exact and_congr_right fun _ => ⟨fun _ => plain, fun _ => ⟨fine.1, fine.2.1⟩⟩

theorem placeable (place : v.Placeable disk entry) (object : IsObject entry')
    (size : entry'.fileSize ≤ entry.fileSize) :
    v.Placeable disk entry' := by
  obtain ⟨-, file, table⟩ := place
  refine ⟨object, fun isFile => ?_, fun kind => ?_⟩
  · have fine := file (same.isFile_eq ▸ isFile)
    unfold FileSound
    rw [same.objectBlocks_eq, same.first]
    exact ⟨fine.1, le_trans (UInt32.le_iff_toNat_le.mp size) fine.2⟩
  · rw [same.first]
    exact table (same.isDirectory_eq ▸ kind)

end SameObject

/-- The files of a volume are not in the blocks of directories. -/
theorem WellFormed.filesKept_of_blocks (formed : v.WellFormed disk)
    (frame : v.Frame disk disk' ∅ blocks)
    (tables : ∀ x ∈ blocks, ∃ c, v.Directory disk c ∧ x ∈ v.extent disk c) :
    v.FilesKept disk disk' := by
  refine formed.filesKept_of_tables frame fun c i other listed file x member =>
    ⟨id, fun inside => ?_⟩
  obtain ⟨c', directory, there⟩ := tables x inside
  exact formed.not_mem_extent listed file directory member there

section

variable (formed : v.WellFormed disk) (directory : v.Directory disk p)
  (here : v.listing disk p j = some entry)
  (plain : entry.filename ≠ kDot ∧ entry.filename ≠ kDotDot) (same : v.SameObject entry entry')
  (fine : Creatable entry'.filename) (size : entry'.fileSize ≤ entry.fileSize)
include formed directory here plain same fine size

/-- An entry is changed in its slot. -/
theorem WellFormed.renamed (rewrites : v.Rewrites disk disk' p j (some entry')) :
    v.Moved disk disk' p j p j entry' := by
  obtain ⟨b, member, frame⟩ := rewrites.frame
  have kept : v.FilesKept disk disk' := formed.filesKept_of_blocks frame fun x inside =>
    ⟨p, directory, Set.mem_singleton_iff.mp inside ▸ member⟩
  have listing : ∀ c, v.Directory disk c → ∀ i, v.listing disk' c i =
      if (c, i) = (p, j) then some entry'
      else if (c, i) = (p, j) then none else v.listing disk c i := by
    intro c known i
    rw [formed.listing_eq_ite directory rewrites known i]
    split_ifs <;> rfl
  by_cases object : IsObject entry
  · have listed : v.Listed disk p j entry := ⟨directory, here, object⟩
    have place := same.placeable (formed.placeable listed)
      ((same.isObject_iff fine plain).mpr object) size
    obtain ⟨formed', directories, entered⟩ := formed.replaced listed rewrites place
      same.isDirectory_eq (fun _ => same.first)
      fun x inside => .inl (same.objectBlocks_eq disk ▸ inside)
    refine ⟨formed.evolves_of_frame frame formed' fun c i other found => ?_, directories,
      directory, .inl rfl, listing, kept⟩
    by_cases this : (c, i) = (p, j)
    · obtain ⟨rfl, rfl⟩ := Prod.mk.inj this
      obtain rfl := listed.unique found
      exact ⟨c, i, entry', (entered c i entry').mpr (by rw [if_pos rfl]; exact ⟨rfl, place.1⟩),
        same.objectBlocks_eq disk, place⟩
    · exact ⟨c, i, other, (entered c i other).mpr (by rw [if_neg this]; exact found), rfl,
        formed.placeable found⟩
  · obtain ⟨evolves, directories⟩ := formed.evolves_of_nothing directory
      (by rw [here]; exact fun other found => Option.some.inj found ▸ object) rewrites
      fun other found => Option.some.inj found ▸ fun now => object
        ((same.isObject_iff fine plain).mp now)
    exact ⟨evolves, directories, directory, .inl rfl, listing, kept⟩

/-- An entry is moved to another directory that is not inside it. -/
theorem WellFormed.relocated (target : v.Directory disk q) (different : p ≠ q)
    (was : v.listing disk q k = none) (enters : v.Rewrites disk middle q k (some entry'))
    (leaves : v.Rewrites middle disk' p j none)
    (outside : IsObject entry → entry.isDirectory = true →
      ¬ ReflTransGen (v.Child disk) (v.firstCluster entry) q) :
    v.Moved disk disk' p j q k entry' := by
  obtain ⟨b, member, frame⟩ := enters.frame
  obtain ⟨b', member', frame'⟩ := leaves.frame
  rw [(enters.isTable (formed.table p directory)).1] at member'
  have both : v.Frame disk disk' ∅ ({b} ∪ {b'}) := (frame.trans frame').mono (by simp) (by simp)
  have kept : v.FilesKept disk disk' := formed.filesKept_of_blocks both fun x inside => by
    rcases inside with rfl | rfl
    · exact ⟨q, target, member⟩
    · exact ⟨p, directory, member'⟩
  have listing := fun c (known : v.Directory disk c) =>
    formed.listing_eq_moved target different enters leaves directory known
  by_cases object : IsObject entry
  · have listed : v.Listed disk p j entry := ⟨directory, here, object⟩
    have object' := (same.isObject_iff fine plain).mpr object
    have place := same.placeable (formed.placeable listed) object' size
    obtain ⟨formed', directories, entered⟩ := formed.moved target different enters leaves
      listed was object' place same.isDirectory_eq (same.objectBlocks_eq disk) same.first
      (outside object)
    refine ⟨formed.evolves_of_frame both formed' fun c i other found => ?_, directories,
      target, .inr was, listing, kept⟩
    by_cases this : (c, i) = (p, j)
    · obtain ⟨rfl, rfl⟩ := Prod.mk.inj this
      obtain rfl := listed.unique found
      exact ⟨q, k, entry', (entered q k entry').mpr (by rw [if_pos rfl]),
        same.objectBlocks_eq disk, place⟩
    · refine ⟨c, i, other, (entered c i other).mpr ?_, rfl, formed.placeable found⟩
      rw [if_neg]
      · exact ⟨this, found⟩
      · intro taken
        obtain ⟨rfl, rfl⟩ := Prod.mk.inj taken
        exact nomatch was.symm.trans found.here
  · obtain ⟨first, directories⟩ := formed.evolves_of_nothing target
      (not_isObject_of_none was) enters
      fun other found => Option.some.inj found ▸ fun now => object
        ((same.isObject_iff fine plain).mp now)
    have here' : v.listing middle p j = some entry := by
      rw [formed.listing_eq_of_ne target enters directory different]
      exact here
    obtain ⟨second, directories'⟩ := first.formed.evolves_of_nothing
      ((directories p).mpr directory)
      (by rw [here']; exact fun other found => Option.some.inj found ▸ object) leaves
      fun other none => nomatch none
    exact ⟨first.trans second, fun c => (directories' c).trans (directories c), target, .inr was,
      listing, kept⟩

end

theorem SameTree.reaches (same : v.SameTree disk disk') (directory : v.Directory disk p)
    (reaches : ReflTransGen (v.Child disk') p q) : ReflTransGen (v.Child disk) p q := by
  induction reaches with
  | refl => exact .refl
  | tail _ edge ih =>
    obtain ⟨j, entry, here, rest⟩ := edge
    rw [same _ (directory.trans ih)] at here
    exact ih.tail ⟨j, entry, here, rest⟩

/-- The table of the target may grow before. -/
theorem Moved.after_grown (formed : v.WellFormed disk) (target : v.Directory disk q)
    (grown : middle = disk ∨ v.TableGrown disk middle q)
    (moved : v.Moved middle disk' p j q k entry') : v.Moved disk disk' p j q k entry' := by
  obtain ⟨evolves, same⟩ := formed.evolves_of_grown target grown
  refine ⟨evolves.trans moved.evolves, fun c => (moved.directory c).trans same.directory_iff,
    target,
    ?_, fun c known i => ?_, (formed.filesKept_of_grown target grown).trans same moved.files⟩
  · rw [← same q target]
    exact moved.vacant
  · rw [moved.listing c (same.directory_iff.mpr known), same c known]

/-- `MoveEntry_` renames an entry, or enters it in another directory with size zero. -/
theorem Sound.run_moveEntry (sound : v.Sound) (fits : v.Fits) (formed : v.WellFormed disk)
    (directory : v.Directory disk p) (here : v.listing disk p j = some entry)
    (plain : entry.filename ≠ kDot ∧ entry.filename ≠ kDotDot) (target : v.Directory disk q)
    (closed : v.Closed disk q) (fine : Creatable name) (visible : name 0 ≠ kDeletedEntry)
    (outside : p ≠ q → IsObject entry → entry.isDirectory = true →
      ¬ ReflTransGen (v.Child disk) (v.firstCluster entry) q) :
    (v.moveEntry ⟨entry, p, j * kEntrySize⟩ name q).run disk =
        .ok (.error .diskFull) disk ∨
      ∃ disk' k entry', (v.moveEntry ⟨entry, p, j * kEntrySize⟩ name q).run disk =
          .ok (.ok ()) disk' ∧ v.Moved disk disk' p j q k entry' ∧ v.SameObject entry entry' ∧
        entry'.filename = name ∧ entry'.fileSize = if p = q then entry.fileSize else 0 := by
  unfold moveEntry
  by_cases stays : p = q
  · subst stays
    have same : v.SameObject entry { entry with filename := name } := ⟨rfl, rfl⟩
    have going : ({ entry with filename := name } : DirectoryEntry).isFurtherEntriesFree = false :=
      beq_eq_false_iff_ne.mpr fine.2.2
    obtain ⟨disk', updated, rewrites⟩ := sound.run_update fits.rootFits
      (formed.table p directory) here going
    rw [kept_eq_some visible] at rewrites
    refine .inr ⟨disk', j, { entry with filename := name }, ?_,
      formed.renamed directory here plain same fine UInt32.le_rfl rewrites, same, rfl,
      (if_pos rfl).symm⟩
    rw [if_pos rfl, run_bind updated]
    rfl
  · rw [if_neg stays]
    rcases sound.run_createEntry_entered fits (formed.table q target) closed fine.2.2 with
      failed | ⟨middle, disk₁, k, old, run, grown, was, enters⟩
    · left
      rw [run_bind failed]
      rfl
    · right
      obtain ⟨evolves, sameTree⟩ := formed.evolves_of_grown target grown
      have known := sameTree.directory_iff.mpr directory
      have known' := sameTree.directory_iff.mpr target
      have same : v.SameObject entry
          (old.renewed name entry.attributes (v.firstCluster entry)) :=
        ⟨rfl, firstCluster_renewed old name _ (Nat.mod_lt _ (Nat.two_pow_pos _))⟩
      rw [kept_eq_some visible] at enters
      have here' : v.listing disk₁ p j = some entry := by
        rw [evolves.formed.listing_eq_of_ne known' enters known stays, sameTree p directory]
        exact here
      obtain ⟨disk', updated, leaves⟩ := sound.run_update fits.rootFits
        (enters.isTable (evolves.formed.table p known)).2 here'
        (isFurtherEntriesFree_deleted entry)
      refine ⟨disk', k, old.renewed name entry.attributes (v.firstCluster entry), ?_, ?_, same, rfl,
        (if_neg stays).symm⟩
      · rw [run_bind run]
        exact run_bind updated
      · refine .after_grown formed target grown ?_
        refine evolves.formed.relocated known ?_ plain same fine
          (UInt32.le_iff_toNat_le.mpr (Nat.zero_le _)) known' stays was enters leaves
          fun object kind reaches => ?_
        · rw [sameTree p directory]
          exact here
        · exact outside stays object kind
            (sameTree.reaches (Listed.directory_of ⟨directory, here, object⟩ kind) reaches)

end AlkOS.Fat.Volume
