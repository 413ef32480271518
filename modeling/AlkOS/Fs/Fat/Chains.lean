import AlkOS.Foundation.LinkedChain
import AlkOS.Fs.Fat.Driver

/-!
# Cluster chains

What allocating, extending, writing and freeing do to the chains of a volume.
The fixed root directory counts as a block of its own, with number zero, so that
directory tables are treated alike wherever they lie.
-/

namespace AlkOS.Fat.Volume

open Kernel

variable {v : Volume} {disk disk' disk'' : Bytes} {cluster other start value i b : ℕ}
  {l l' l'' m m' : List ℕ} {bytes : Bytes} {x : ℕ}

theorem checkEntry_of_size (size : 2 * v.bytesPerSector ≤ kMaxTempBufSize)
    (known : cluster < v.clusterCount + kFirstClusterNumber) : v.checkEntry cluster = .ok () := by
  have one : v.checkRange 1 = .ok () := if_pos (by omega)
  have two : v.checkRange 2 = .ok () := if_pos size
  unfold checkEntry
  cases v.variant with
  | fat12 =>
    simp only [known, not_true_eq_false, and_false, ↓reduceIte]
    split_ifs
    · exact two
    · exact one
  | fat16 => exact one
  | fat32 => exact one

theorem Sound.checkEntry_eq (sound : v.Sound)
    (known : cluster < v.clusterCount + kFirstClusterNumber) : v.checkEntry cluster = .ok () :=
  checkEntry_of_size sound.sectorSize known

section

variable (passes : v.checkEntry cluster = .ok ())
include passes

theorem getFATEntry_of_passes (disk : Bytes) :
    v.getFATEntry disk cluster = .ok (v.entry disk cluster) := by
  unfold getFATEntry
  rw [passes]
  rfl

theorem run_getFATEntry_of_passes (disk : Bytes) :
    (reading fun disk => v.getFATEntry disk cluster).run disk =
      .ok (v.entry disk cluster) disk := by
  apply run_reading_of_ok
  exact getFATEntry_of_passes passes disk

theorem run_setFATEntry_of_passes (disk : Bytes) (value : ℕ) :
    (v.setFATEntry cluster value).run disk = .ok () (v.putEntry disk cluster value) := by
  have check : (reading fun _ => v.checkEntry cluster).run disk = .ok () disk := by
    apply run_reading_of_ok
    exact passes
  unfold setFATEntry
  rw [run_bind check]
  rfl

end

theorem Sound.readCluster_eq (sound : v.Sound) (disk : Bytes) (cluster : ℕ) :
    v.readCluster disk cluster = .ok (v.data disk cluster) := by
  have range : v.checkRange v.sectorsPerCluster = .ok () := by
    refine if_pos (sound.clusterFits.trans ?_)
    decide
  unfold readCluster
  rw [range]
  rfl

theorem Sound.run_readCluster (sound : v.Sound) (disk : Bytes) (cluster : ℕ) :
    (reading fun disk => v.readCluster disk cluster).run disk =
      .ok (v.data disk cluster) disk := by
  apply run_reading_of_ok
  exact sound.readCluster_eq disk cluster

theorem readRoot_eq (small : v.rootSize ≤ kMaxTempBufSize) (disk : Bytes) :
    v.readRoot disk = .ok (v.root disk) := by
  have range : v.checkRange v.rootSectors = .ok () := if_pos small
  unfold readRoot
  rw [range]
  rfl

theorem run_checkBuffer {size : ℕ} (small : size ≤ kMaxClusterSize) (disk : Bytes) :
    (reading fun _ => checkBuffer size).run disk = .ok () disk := by
  apply run_reading_of_ok
  exact if_pos small

theorem run_writeCluster (disk : Bytes) (cluster : ℕ) (bytes : Bytes) :
    (v.writeCluster cluster bytes).run disk = .ok () (v.putData disk cluster bytes) := rfl

/-- The number zero stands for the fixed root directory. -/
def IsRootBlock (v : Volume) (b : ℕ) : Prop := v.variant.kHasFixedRootDir = true ∧ b = 0

instance (v : Volume) (b : ℕ) : Decidable (v.IsRootBlock b) := inferInstanceAs (Decidable (_ ∧ _))

/-- A block is the fixed root directory or a cluster. -/
def IsBlock (v : Volume) (b : ℕ) : Prop := v.IsRootBlock b ∨ v.InRange b

/-- The size of a block. -/
def blockSize (v : Volume) (b : ℕ) : ℕ := if v.IsRootBlock b then v.rootSize else v.clusterSize

/-- The bytes of a block. -/
def block (v : Volume) (disk : Bytes) (b : ℕ) : Bytes :=
  if v.IsRootBlock b then v.root disk else v.data disk b

/-- Replace the bytes of a block. -/
def putBlock (v : Volume) (disk : Bytes) (b : ℕ) (bytes : Bytes) : Bytes :=
  if v.IsRootBlock b then v.putRoot disk bytes else v.putData disk b bytes

section

variable (known : v.InRange b)
include known

theorem InRange.not_isRootBlock : ¬ v.IsRootBlock b := by
  intro root
  have positive : (2 : ℕ) ≤ b := known.1
  rw [root.2] at positive
  omega

theorem block_of_inRange : v.block disk b = v.data disk b :=
  if_neg known.not_isRootBlock

theorem blockSize_of_inRange : v.blockSize b = v.clusterSize :=
  if_neg known.not_isRootBlock

theorem putBlock_of_inRange :
    v.putBlock disk b bytes = v.putData disk b bytes :=
  if_neg known.not_isRootBlock

end

theorem block_putBlock_self (inside : i < v.blockSize b) :
    v.block (v.putBlock disk b bytes) b i = bytes i := by
  unfold block putBlock blockSize at *
  split_ifs at * with root
  · exact Bytes.blit_inside inside
  · exact data_putData_self inside

/-- Writing a block keeps the others. -/
theorem Sound.block_putBlock_of_ne (sound : v.Sound) (known : v.IsBlock b)
    (otherKnown : v.IsBlock other) (different : b ≠ other) (inside : i < v.blockSize other) :
    v.block (v.putBlock disk b bytes) other i = v.block disk other i := by
  unfold block putBlock blockSize at *
  rcases known with root | known
  · have away : ¬ v.IsRootBlock other := fun same => different (root.2.trans same.2.symm)
    rw [if_neg away, if_neg away, if_pos root]
    exact sound.data_putRoot (otherKnown.resolve_left away)
  · rw [if_neg known.not_isRootBlock]
    split_ifs at * with root
    · exact sound.root_putData known inside
    · exact sound.data_putData_of_ne known (otherKnown.resolve_left root) different inside

theorem Sound.entry_putBlock (sound : v.Sound) (known : v.IsBlock b)
    (otherKnown : other < v.clusterCount + kFirstClusterNumber) :
    v.entry (v.putBlock disk b bytes) other = v.entry disk other := by
  unfold putBlock
  split_ifs with root
  · exact sound.entry_putRoot otherKnown
  · exact sound.entry_putData (known.resolve_left root) otherKnown

theorem Sound.block_putEntry (sound : v.Sound)
    (known : cluster < v.clusterCount + kFirstClusterNumber) (otherKnown : v.IsBlock b) :
    v.block (v.putEntry disk cluster value) b i = v.block disk b i := by
  unfold block
  split_ifs with root
  · exact sound.root_putEntry known
  · exact sound.data_putEntry known (otherKnown.resolve_left root)

/-- The disks differ in the given table entries and blocks only. -/
structure Frame (v : Volume) (disk disk' : Bytes) (entries blocks : Set ℕ) : Prop where
  entry : ∀ x < v.clusterCount + kFirstClusterNumber, x ∉ entries →
    v.entry disk' x = v.entry disk x
  block : ∀ b, v.IsBlock b → b ∉ blocks → ∀ i < v.blockSize b, v.block disk' b i = v.block disk b i

namespace Frame

variable {entries entries' blocks blocks' : Set ℕ}

theorem refl (v : Volume) (disk : Bytes) : v.Frame disk disk entries blocks :=
  ⟨fun _ _ _ => rfl, fun _ _ _ _ _ => rfl⟩

theorem trans (first : v.Frame disk disk' entries blocks)
    (second : v.Frame disk' disk'' entries' blocks') :
    v.Frame disk disk'' (entries ∪ entries') (blocks ∪ blocks') where
  entry x known outside := by
    rw [second.entry x known fun inside => outside (.inr inside),
      first.entry x known fun inside => outside (.inl inside)]
  block b known outside i inside := by
    rw [second.block b known (fun member => outside (.inr member)) i inside,
      first.block b known (fun member => outside (.inl member)) i inside]

theorem mono (frame : v.Frame disk disk' entries blocks) (more : entries ⊆ entries')
    (moreBlocks : blocks ⊆ blocks') : v.Frame disk disk' entries' blocks' where
  entry x known outside := frame.entry x known fun inside => outside (more inside)
  block b known outside := frame.block b known fun inside => outside (moreBlocks inside)

end Frame

theorem Sound.frame_putEntry (sound : v.Sound)
    (known : cluster < v.clusterCount + kFirstClusterNumber) :
    v.Frame disk (v.putEntry disk cluster value) {cluster} ∅ where
  entry _ _ outside := entry_putEntry_of_ne (Ne.symm outside)
  block _ otherKnown _ _ _ := sound.block_putEntry known otherKnown

theorem Sound.frame_putBlock (sound : v.Sound) (known : v.IsBlock b) :
    v.Frame disk (v.putBlock disk b bytes) ∅ {b} where
  entry _ otherKnown _ := sound.entry_putBlock known otherKnown
  block _ otherKnown outside _ inside :=
    sound.block_putBlock_of_ne known otherKnown (Ne.symm outside) inside

/-- A chain of the table whose clusters all exist. -/
structure Chain (v : Volume) (disk : Bytes) (start : ℕ) (l : List ℕ) : Prop where
  linked : LinkedChain (v.entry disk) (v.kEOC ≤ ·) start l
  inRange : ∀ x ∈ l, v.InRange x

theorem kEOC_pos (v : Volume) : 2 < v.kEOC := by
  unfold kEOC
  cases v.variant <;> decide

theorem kEOC_lt (v : Volume) : v.kEOC < 2 ^ v.variant.entryBits := by
  unfold kEOC
  cases v.variant <;> decide

namespace Chain

theorem single (known : v.InRange start) (below : start < v.kEOC)
    (ends : v.kEOC ≤ v.entry disk start) : v.Chain disk start [start] :=
  ⟨.last (not_le.mpr below) ends, List.forall_mem_singleton.mpr known⟩

section

variable (chain : v.Chain disk start l)
include chain

theorem nodup : l.Nodup := chain.linked.nodup

theorem start_mem : start ∈ l := chain.linked.start_mem

theorem lt_kEOC (member : x ∈ l) : x < v.kEOC :=
  not_le.mp (chain.linked.not_stop member)

/-- The entries of a chain are not free. -/
theorem entry_ne_zero (member : x ∈ l) : v.entry disk x ≠ 0 := by
  intro free
  rcases chain.linked.next_mem_or_stop member with inside | ends
  · rw [free] at inside
    have positive : (2 : ℕ) ≤ 0 := (chain.inRange 0 inside).1
    omega
  · have positive := v.kEOC_pos
    omega

theorem congr (same : ∀ x ∈ l, v.entry disk' x = v.entry disk x) : v.Chain disk' start l :=
  ⟨chain.linked.congr same, chain.inRange⟩

theorem frame {entries blocks : Set ℕ} (frame : v.Frame disk disk' entries blocks)
    (apart : ∀ x ∈ l, x ∉ entries) :
    v.Chain disk' start l :=
  chain.congr fun x member => frame.entry x (chain.inRange x member).2 (apart x member)

end

theorem drop {before after : List ℕ} (chain : v.Chain disk start (before ++ b :: after)) :
    v.Chain disk b (b :: after) :=
  ⟨chain.linked.drop, fun x member => chain.inRange x (List.mem_append_right _ member)⟩

theorem length_le (chain : v.Chain disk start l) : l.length ≤ v.clusterCount := by
  have sub : l ⊆ (List.range v.clusterCount).map (· + 2) := by
    intro x member
    have known := chain.inRange x member
    have low : (2 : ℕ) ≤ x := known.1
    have high : x < v.clusterCount + 2 := known.2
    exact List.mem_map.mpr ⟨x - 2, List.mem_range.mpr (by omega), by omega⟩
  have size := (chain.nodup.subperm sub).length_le
  rwa [List.length_map, List.length_range] at size

/-- A chain is shorter than any walk that the driver gives up. -/
theorem length_le_kEOC (chain : v.Chain disk start l) : l.length ≤ v.kEOC := by
  have sub : l ⊆ List.range v.kEOC := fun x member => List.mem_range.mpr (chain.lt_kEOC member)
  have size := (chain.nodup.subperm sub).length_le
  rwa [List.length_range] at size

end Chain

/-- The cluster that `AllocateCluster_` hands out. -/
def firstFree (v : Volume) (disk : Bytes) : Option ℕ :=
  (List.range' kFirstClusterNumber v.clusterCount).find? fun x => v.entry disk x == 0

theorem firstFree_eq_some (found : v.firstFree disk = some cluster) :
    v.InRange cluster ∧ v.entry disk cluster = 0 := by
  have member := List.mem_of_find?_eq_some found
  have free := List.find?_some found
  rw [List.mem_range'_1] at member
  refine ⟨⟨member.1, ?_⟩, by simpa using free⟩
  rw [Nat.add_comm]
  exact member.2

theorem firstFree_eq_none (none : v.firstFree disk = none) (known : v.InRange cluster) :
    v.entry disk cluster ≠ 0 := by
  have taken := List.find?_eq_none.mp none cluster
    (List.mem_range'_1.mpr ⟨known.1, by rw [Nat.add_comm]; exact known.2⟩)
  simpa using taken

/-- The loop of `AllocateCluster_` takes the first free cluster. -/
theorem Sound.run_allocateFrom (sound : v.Sound) (count : ℕ)
    (known : cluster + count ≤ v.clusterCount + kFirstClusterNumber) :
    (v.allocateFrom count cluster).run disk =
      match (List.range' cluster count).find? fun x => v.entry disk x == 0 with
      | none => .ok 0 disk
      | some free => .ok free (v.putEntry disk free v.kEOC) := by
  induction count generalizing cluster with
  | zero => rfl
  | succ count ih =>
    have here : cluster < v.clusterCount + kFirstClusterNumber := by omega
    have passes := sound.checkEntry_eq here
    rw [allocateFrom, run_bind (run_getFATEntry_of_passes passes disk), List.range'_succ]
    by_cases free : v.entry disk cluster = 0
    · rw [if_pos free, List.find?_cons_of_pos (by simpa using free),
        run_bind (run_setFATEntry_of_passes passes disk v.kEOC)]
      rfl
    · rw [if_neg free, List.find?_cons_of_neg (by simpa using free)]
      exact ih (by omega)

theorem Sound.run_allocateCluster (sound : v.Sound) (disk : Bytes) :
    EStateM.run v.allocateCluster disk =
      match v.firstFree disk with
      | none => .ok 0 disk
      | some free => .ok free (v.putEntry disk free v.kEOC) :=
  sound.run_allocateFrom v.clusterCount (Nat.le_of_eq (Nat.add_comm _ _))

/-- An allocated cluster is a chain of its own. -/
theorem Sound.chain_allocated (sound : v.Sound) (fits : v.Fits)
    (found : v.firstFree disk = some cluster) :
    v.Chain (v.putEntry disk cluster v.kEOC) cluster [cluster] ∧
      v.Frame disk (v.putEntry disk cluster v.kEOC) {cluster} ∅ := by
  obtain ⟨known, -⟩ := firstFree_eq_some found
  have ends : v.entry (v.putEntry disk cluster v.kEOC) cluster = v.kEOC := by
    rw [entry_putEntry_self, Nat.mod_eq_of_lt v.kEOC_lt]
  exact ⟨.single known (lt_of_lt_of_le known.2 fits.clusters) ends.ge,
    sound.frame_putEntry known.2⟩

/-- Append a free cluster to a chain that ends at the given cluster. -/
def link (v : Volume) (disk : Bytes) (cluster free : ℕ) : Bytes :=
  v.putEntry (v.putEntry disk free v.kEOC) cluster free

/-- One step along a chain, which may extend it. -/
theorem Sound.run_nextOrAllocate (sound : v.Sound) (passes : v.checkEntry cluster = .ok ())
    (disk : Bytes) :
    (v.nextOrAllocate cluster).run disk =
      if v.kEOC ≤ v.entry disk cluster then
        match v.firstFree disk with
        | none => .ok none disk
        | some free => .ok (some (free, true)) (v.link disk cluster free)
      else .ok (some (v.entry disk cluster, false)) disk := by
  unfold nextOrAllocate
  rw [run_bind (run_getFATEntry_of_passes passes disk)]
  by_cases ends : v.kEOC ≤ v.entry disk cluster
  · have allocated := sound.run_allocateCluster disk
    rw [if_pos ends, if_pos ends]
    cases found : v.firstFree disk with
    | none =>
      rw [found] at allocated
      rw [run_bind allocated]
      rfl
    | some free =>
      rw [found] at allocated
      have positive : (2 : ℕ) ≤ free := (firstFree_eq_some found).1.1
      rw [run_bind allocated, if_neg (by omega),
        run_bind (run_setFATEntry_of_passes passes _ free)]
      rfl
  · rw [if_neg ends, if_neg ends]
    rfl

/-- The chain `l` has grown to `l'` by clusters that were free. -/
structure Grown (v : Volume) (disk disk' : Bytes) (l l' : List ℕ) : Prop where
  starts : l <+: l'
  fresh : ∀ x ∈ l', x ∈ l ∨ v.InRange x ∧ v.entry disk x = 0
  links : ∀ start, v.Chain disk start l → v.Chain disk' start l'
  frame : v.Frame disk disk' {x | x ∈ l'} {x | x ∈ l'}

namespace Grown

/-- Changing the blocks of a chain leaves the chain as it is. -/
theorem of_frame {blocks : Set ℕ} (frame : v.Frame disk disk' ∅ blocks)
    (inside : blocks ⊆ {x | x ∈ l}) : v.Grown disk disk' l l where
  starts := List.prefix_refl l
  fresh _ member := .inl member
  links _ chain := chain.frame frame fun _ _ => id
  frame := frame.mono (Set.empty_subset _) inside

theorem refl (v : Volume) (disk : Bytes) (l : List ℕ) : v.Grown disk disk l l :=
  of_frame (Frame.refl v disk) (Set.empty_subset _)

theorem subset (grown : v.Grown disk disk' l l') : l ⊆ l' := grown.starts.subset

theorem trans (first : v.Grown disk disk' l l') (second : v.Grown disk' disk'' l' l'') :
    v.Grown disk disk'' l l'' where
  starts := first.starts.trans second.starts
  fresh x member := by
    rcases second.fresh x member with old | ⟨known, free⟩
    · exact first.fresh x old
    · by_cases inside : x ∈ l'
      · exact first.fresh x inside
      · rw [first.frame.entry x known.2 inside] at free
        exact .inr ⟨known, free⟩
  links start chain := second.links start (first.links start chain)
  frame := (first.frame.trans second.frame).mono
    (Set.union_subset second.subset fun _ => id) (Set.union_subset second.subset fun _ => id)

/-- The clusters before the part that grew are not touched. -/
theorem not_mem_of_before (grown : v.Grown disk disk' (b :: m) m')
    (chain : v.Chain disk start (l ++ b :: m)) (before : x ∈ l) : x ∉ m' := by
  intro inside
  rcases grown.fresh x inside with old | ⟨-, free⟩
  · exact (List.nodup_append.mp chain.nodup).2.2 x before x old rfl
  · exact chain.entry_ne_zero (List.mem_append_left _ before) free

/-- A chain grows when one of its ends does. -/
theorem append_left (grown : v.Grown disk disk' (b :: m) m') (l : List ℕ) :
    v.Grown disk disk' (l ++ b :: m) (l ++ m') where
  starts := (List.prefix_append_right_inj l).mpr grown.starts
  fresh x member := by
    rcases List.mem_append.mp member with before | after
    · exact .inl (List.mem_append_left _ before)
    · exact (grown.fresh x after).imp_left fun old => List.mem_append_right _ old
  links first whole := by
    have tail := grown.links b whole.drop
    have keep : ∀ x ∈ l, v.entry disk' x = v.entry disk x := fun x before =>
      grown.frame.entry x (whole.inRange x (List.mem_append_left _ before)).2
        (grown.not_mem_of_before whole before)
    exact ⟨whole.linked.replace_tail keep tail.linked, List.forall_mem_append.mpr
      ⟨fun x before => whole.inRange x (List.mem_append_left _ before), tail.inRange⟩⟩
  frame := grown.frame.mono (fun _ member => List.mem_append_right _ member)
    (fun _ member => List.mem_append_right _ member)

end Grown

/-- Appending a free cluster to a one-cluster chain. -/
theorem Sound.grown_link (sound : v.Sound) (fits : v.Fits) (known : v.InRange cluster)
    (free : v.firstFree disk = some other) (taken : v.entry disk cluster ≠ 0) :
    v.Grown disk (v.link disk cluster other) [cluster] [cluster, other] ∧
      v.Frame disk (v.link disk cluster other) {cluster, other} ∅ ∧
      v.Chain (v.link disk cluster other) other [other] := by
  obtain ⟨otherKnown, empty⟩ := firstFree_eq_some free
  have different : cluster ≠ other := fun same => taken (same ▸ empty)
  have first : v.Frame disk (v.putEntry disk other v.kEOC) {other} ∅ :=
    sound.frame_putEntry otherKnown.2
  have second : v.Frame (v.putEntry disk other v.kEOC) (v.link disk cluster other) {cluster} ∅ :=
    sound.frame_putEntry known.2
  have frame : v.Frame disk (v.link disk cluster other) {cluster, other} ∅ :=
    (first.trans second).mono (by intro x member; simpa [or_comm] using member)
      (by simp)
  have small : other < v.kEOC := lt_of_lt_of_le otherKnown.2 fits.clusters
  have wide := v.kEOC_lt
  have next : v.entry (v.link disk cluster other) cluster = other := by
    rw [link, entry_putEntry_self, Nat.mod_eq_of_lt (small.trans wide)]
  have ends : v.entry (v.link disk cluster other) other = v.kEOC := by
    rw [link, entry_putEntry_of_ne different, entry_putEntry_self, Nat.mod_eq_of_lt wide]
  have single : v.Chain (v.link disk cluster other) other [other] :=
    .single otherKnown small ends.ge
  refine ⟨⟨?_, ?_, ?_, ?_⟩, frame, single⟩
  · exact ⟨[other], rfl⟩
  · exact List.forall_mem_cons.mpr ⟨.inl List.mem_cons_self,
      List.forall_mem_singleton.mpr (.inr ⟨otherKnown, empty⟩)⟩
  · intro start chain
    have same : start = cluster := by
      obtain ⟨rest, split⟩ := chain.linked.exists_cons
      exact (List.cons.inj split).1.symm
    subst same
    have linked : LinkedChain (v.entry (v.link disk start other)) (v.kEOC ≤ ·)
        (v.entry (v.link disk start other) start) [other] := by
      rw [next]
      exact single.linked
    exact ⟨.cons (not_le.mpr (chain.lt_kEOC chain.start_mem)) linked,
      List.forall_mem_cons.mpr ⟨known, single.inRange⟩⟩
  · exact frame.mono (by intro x member; simpa using member) (Set.empty_subset _)

end AlkOS.Fat.Volume
