import AlkOS.Fs.Fat.Operations

/-!
# Deleting files and directories

`FreeClusterChain_` clears each link that it follows, so that it ends on cyclic chains
too. `DeleteFile` and `RemoveDirectory` free the chain of one entry and mark one slot.
-/

namespace AlkOS.Fat.Volume

open Kernel Vfs

variable {v : Volume} {disk disk' : Bytes} {cluster p j x : ℕ} {entry : DirectoryEntry}

/-- What `FreeClusterChain_` may meet: no cluster, the end of a chain, or a cluster. -/
def IsLink (v : Volume) (value : ℕ) : Prop := value = 0 ∨ v.kEOC ≤ value ∨ v.InRange value

/-- All clusters have links in range. -/
def LinksInRange (v : Volume) (disk : Bytes) : Prop :=
  ∀ x, v.InRange x → v.IsLink (v.entry disk x)

/-- The clusters below the end marker that have a link. -/
def linked (v : Volume) (disk : Bytes) : Finset ℕ :=
  {x ∈ Finset.Ico 2 v.kEOC | v.entry disk x ≠ 0}

theorem linked_putEntry_zero (v : Volume) (disk : Bytes) (cluster : ℕ) :
    v.linked (v.putEntry disk cluster 0) = (v.linked disk).erase cluster := by
  ext x
  unfold linked
  simp only [Finset.mem_filter]
  by_cases here : x = cluster
  · rw [here, entry_putEntry_self]
    simp
  · rw [entry_putEntry_of_ne (Ne.symm here)]
    simp [here]

theorem LinksInRange.putEntry_zero (links : v.LinksInRange disk) (cluster : ℕ) :
    v.LinksInRange (v.putEntry disk cluster 0) := by
  intro x known
  by_cases here : x = cluster
  · rw [here, entry_putEntry_self]
    exact .inl rfl
  · rw [entry_putEntry_of_ne (Ne.symm here)]
    exact links x known

/-- Each step clears a link, and a cluster without a link is the last one. -/
theorem Sound.run_freeChainLoop_of_links (sound : v.Sound) (fuel : ℕ)
    (links : v.LinksInRange disk) (start : v.IsLink cluster)
    (enough : (v.linked disk).card + 1 < fuel) :
    ∃ disk', (v.freeChainLoop fuel cluster).run disk = .ok () disk' := by
  induction fuel generalizing disk cluster with
  | zero => omega
  | succ fuel ih =>
    by_cases ends : cluster = 0 ∨ v.kEOC ≤ cluster
    · exact ⟨disk, run_freeChainLoop_of_end ends fuel⟩
    · have known : v.InRange cluster := by
        rcases start with none | last | known
        · exact absurd (.inl none) ends
        · exact absurd (.inr last) ends
        · exact known
      have passes := sound.checkEntry_eq known.2
      rw [freeChainLoop, if_pos (by omega),
        run_bind (run_getFATEntry_of_passes passes disk),
        run_bind (run_setFATEntry_of_passes passes disk 0)]
      by_cases free : v.entry disk cluster = 0
      · obtain ⟨fuel, rfl⟩ : ∃ more, fuel = more + 1 := ⟨fuel - 1, by omega⟩
        rw [free]
        exact ⟨_, run_freeChainLoop_of_end (.inl rfl) fuel⟩
      · refine ih (links.putEntry_zero cluster) (links cluster known) ?_
        have member : cluster ∈ v.linked disk := by
          refine Finset.mem_filter.mpr ⟨Finset.mem_Ico.mpr ⟨known.1, ?_⟩, free⟩
          omega
        rw [linked_putEntry_zero]
        have fewer := Finset.card_erase_lt_of_mem member
        omega

/-- `FreeClusterChain_` ends for every content of the table. -/
theorem Sound.run_freeClusterChain_of_links (sound : v.Sound) (links : v.LinksInRange disk)
    (start : v.IsLink cluster) :
    ∃ disk', (v.freeClusterChain cluster).run disk = .ok () disk' := by
  refine sound.run_freeChainLoop_of_links _ links start ?_
  have most := Finset.card_filter_le (Finset.Ico 2 v.kEOC) fun x => v.entry disk x ≠ 0
  rw [Nat.card_Ico] at most
  have positive := v.kEOC_pos
  unfold linked
  omega

/-- The free clusters of a volume. -/
def freeClusters (v : Volume) (disk : Bytes) : Finset ℕ :=
  {x ∈ Finset.Ico kFirstClusterNumber (v.clusterCount + kFirstClusterNumber) | v.entry disk x = 0}

theorem mem_freeClusters : x ∈ v.freeClusters disk ↔ v.InRange x ∧ v.entry disk x = 0 := by
  unfold freeClusters
  rw [Finset.mem_filter, Finset.mem_Ico]
  rfl

/-- The clusters of a deleted object are added to the free ones. -/
theorem Deleted.card_freeClusters (deleted : v.Deleted disk disk' p j entry)
    (formed : v.WellFormed disk) (listed : v.Listed disk p j entry) :
    (v.freeClusters disk').card =
      (v.freeClusters disk).card + (v.objectBlocks disk entry).length := by
  have chain : (v.objectBlocks disk entry).Nodup ∧
      ∀ x ∈ v.objectBlocks disk entry, v.InRange x := by
    rcases formed.chain listed with ⟨-, empty⟩ | chain
    · rw [empty]
      exact ⟨List.nodup_nil, fun _ member => nomatch member⟩
    · exact ⟨chain.nodup, chain.inRange⟩
  have union : v.freeClusters disk' =
      v.freeClusters disk ∪ (v.objectBlocks disk entry).toFinset := by
    ext x
    rw [Finset.mem_union, List.mem_toFinset, mem_freeClusters, mem_freeClusters]
    constructor
    · rintro ⟨known, free⟩
      rw [deleted.links x known] at free
      split_ifs at free with inside
      · exact .inr inside
      · exact .inl ⟨known, free⟩
    · rintro (⟨known, free⟩ | inside)
      · refine ⟨known, ?_⟩
        rw [deleted.links x known, free, ite_self]
      · refine ⟨chain.2 x inside, ?_⟩
        rw [deleted.links x (chain.2 x inside), if_pos inside]
  have apart : Disjoint (v.freeClusters disk) (v.objectBlocks disk entry).toFinset := by
    refine Finset.disjoint_left.mpr fun x free inside => ?_
    obtain ⟨known, free⟩ := mem_freeClusters.mp free
    exact formed.not_holds_of_free known free (.object listed (List.mem_toFinset.mp inside))
  rw [union, Finset.card_union_of_disjoint apart, List.toFinset_card_of_nodup chain.1]

/-- Deleting the object in a slot frees its clusters and changes nothing else. -/
def DeletesOne (v : Volume) (disk : Bytes) (operation : Kernel Bytes (Except VfsError Unit))
    (p j : ℕ) (entry : DirectoryEntry) : Prop :=
  ∃ disk', EStateM.run operation disk = .ok (.ok ()) disk' ∧ v.Deleted disk disk' p j entry ∧
    (v.freeClusters disk').card =
      (v.freeClusters disk).card + (v.objectBlocks disk entry).length

/-- Chains are freed in finitely many steps, and deletions are exact. -/
def DeletesExactly (v : Volume) : Prop :=
  (∀ disk cluster, v.LinksInRange disk → v.IsLink cluster →
    ∃ disk', (v.freeClusterChain cluster).run disk = .ok () disk') ∧
  ∀ disk, v.WellFormed disk → ∀ (path : Path.Parsed) (p j : ℕ) (entry : DirectoryEntry),
    v.Denotes disk v.rootCluster (names path.1.components) p j entry →
    (entry.isFile = true → v.DeletesOne disk (v.deleteFile path.1) p j entry) ∧
    (entry.isDirectory = true → v.isDirectoryEmpty disk entry = .ok true →
      v.DeletesOne disk (v.removeDirectory path.1) p j entry)

theorem Sound.deletesOne_deleteEntry (sound : v.Sound) (fits : v.RootFits)
    (formed : v.WellFormed disk) (listed : v.Listed disk p j entry)
    (removable : v.Removable disk entry) :
    v.DeletesOne disk (v.deleteEntry ⟨entry, p, j * kEntrySize⟩) p j entry := by
  obtain ⟨disk', run, deleted, -⟩ := sound.run_deleteEntry formed listed fits removable
  exact ⟨disk', run, deleted, deleted.card_freeClusters formed listed⟩

section

variable (sound : v.Sound) (formed : v.WellFormed disk) (path : Path.Parsed)
  (denotes : v.Denotes disk v.rootCluster (names path.1.components) p j entry)
include sound formed path denotes

theorem Sound.run_deleteFile_of_denotes (readable : v.RootReadable) (file : entry.isFile = true) :
    (v.deleteFile path.1).run disk =
      (v.deleteEntry ⟨entry, p, j * kEntrySize⟩).run disk := by
  have lookup := sound.lookupPath_of_denotes readable formed path.2 denotes
  rw [deleteFile, run_bind (run_lookup lookup)]
  simp only [file]
  rfl

/-- `RemoveDirectory` of an empty directory. -/
theorem Sound.deletesOne_removeDirectory (fits : v.RootFits) (kind : entry.isDirectory = true)
    (empty : v.isDirectoryEmpty disk entry = .ok true) :
    v.DeletesOne disk (v.removeDirectory path.1) p j entry := by
  have lookup := sound.lookupPath_of_denotes fits.readable formed path.2 denotes
  have listed := denotes.listed (Directory.root v disk) (.inr kind)
  obtain ⟨known, scanned, nothing⟩ := sound.isDirectoryEmpty_eq fits.readable
    (formed.table _ (listed.directory_of kind))
  unfold removeDirectory DeletesOne
  rw [run_bind (run_lookup lookup)]
  simp only [kind]
  rw [if_neg (by decide), run_bind (run_scan empty)]
  refine sound.deletesOne_deleteEntry fits formed listed (.inr ⟨kind, nothing ?_⟩)
  rw [scanned] at empty
  exact Except.ok.inj empty

end

/-- A file in a root directory that does not fit cannot be deleted. -/
theorem Sound.rootFits_of_deletesExactly (sound : v.Sound) (deletes : v.DeletesExactly) :
    v.RootFits := by
  intro fixed
  by_contra large
  obtain ⟨formed, here, -⟩ := sound.loneFile_fixed fixed (by
    unfold kEntrySize
    unfold kMaxClusterSize at large
    omega)
  have denotes := denotes_loneFile here
  obtain ⟨disk', run, -⟩ := (deletes.2 _ formed pathA _ 0 emptyFile denotes).1 isFile_emptyFile
  obtain ⟨_, _, looked, -⟩ := run_bind_eq_ok run
  rw [sound.run_deleteFile_of_denotes formed pathA denotes (sound.rootReadable_of_lookup looked)
    isFile_emptyFile] at run
  obtain ⟨_, _, -, run⟩ := run_bind_eq_ok run
  obtain ⟨_, _, updated, -⟩ := run_bind_eq_ok run
  have positive : 0 * kEntrySize < v.rootSize := by omega
  exact large (rootSize_le_of_update ⟨fixed, if_pos fixed⟩ positive updated)

/-- Deletion works exactly if the root directory fits. -/
theorem Sound.deletesExactly_iff (sound : v.Sound) : v.DeletesExactly ↔ v.RootFits := by
  refine ⟨sound.rootFits_of_deletesExactly, fun fits => ⟨fun disk cluster links start =>
    sound.run_freeClusterChain_of_links links start, fun disk formed path p j entry denotes =>
    ⟨fun file => ?_, sound.deletesOne_removeDirectory formed path denotes fits⟩⟩⟩
  unfold DeletesOne
  rw [sound.run_deleteFile_of_denotes formed path denotes fits.readable file]
  exact sound.deletesOne_deleteEntry fits formed
    (denotes.listed (Directory.root v disk) (.inl file)) (.inl file)

/-- The root directory of a small volume fits the temporary buffer. -/
theorem deletesExactly_small : (small 1 1 8).RootFits ∧ (small 1 1 8).DeletesExactly := by
  have fits : (small 1 1 8).RootFits := fun _ => by decide
  exact ⟨fits,
    (Sound.deletesExactly_iff (sound_small (by decide) (by decide) (by decide))).mpr fits⟩

/-- A root directory of 1040 entries is larger than the temporary buffer. -/
theorem not_deletesExactly_large_root : (small 1 65 8).Sound ∧ ¬ (small 1 65 8).DeletesExactly := by
  have sound : (small 1 65 8).Sound := sound_small (by decide) (by decide) (by decide)
  exact ⟨sound, fun deletes => absurd (sound.rootFits_of_deletesExactly deletes rfl) (by decide)⟩

end AlkOS.Fat.Volume
