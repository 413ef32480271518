import AlkOS.Foundation.Bytes
import AlkOS.Kernel.Basic

/-!
# FAT volumes

The layout of a mounted FAT12, FAT16 or FAT32 volume on an in-memory disk, and how a
table entry is packed. The driver uses the first copy of the table only. Entries,
clusters and the fixed root directory are independent of one another.
-/

namespace AlkOS.Fat

/-- The three implementations of the driver. -/
inductive Variant where
  | fat12
  | fat16
  | fat32
deriving DecidableEq, Repr

/-- `kBitMask<NumT, start, length>`: the bits from `start` up to, but not including, `length`. -/
def kBitMask (start length : ℕ) : ℕ :=
  ((List.range length).filter (start ≤ ·)).foldl (fun mask bit => mask ||| 1 <<< bit) 0

namespace Variant

/-- Whether the root directory lies outside the clusters. -/
def kHasFixedRootDir : Variant → Bool
  | fat12 => true
  | fat16 => true
  | fat32 => false

/-- The end-of-chain marker; every larger value ends a chain as well. -/
def kEOC : Variant → ℕ
  | fat12 => 0x0FF8
  | fat16 => 0xFFF8
  | fat32 => kBitMask 3 25

/-- The numbers of clusters that `IsValid` accepts. -/
def acceptsCount : Variant → ℕ → Bool
  | fat12, count => decide (count < 4085)
  | fat16, count => decide (4085 ≤ count) && decide (count < 65525)
  | fat32, count => decide (65525 ≤ count)

/-- The width of `ClusterNumT`, in bits. -/
def clusterBits : Variant → ℕ
  | fat12 => 16
  | fat16 => 16
  | fat32 => 32

/-- The width of a table entry, in bits. -/
def entryBits : Variant → ℕ
  | fat12 => 12
  | fat16 => 16
  | fat32 => 28

/-- The bytes that are read and written for one entry. -/
def entryWidth : Variant → ℕ
  | fat12 => 2
  | fat16 => 2
  | fat32 => 4

/-- The offset of an entry in the table. -/
def entryOffset : Variant → ℕ → ℕ
  | fat12, cluster => cluster + cluster / 2
  | fat16, cluster => cluster * 2
  | fat32, cluster => cluster * 4

/-- The entry in the word at its offset. -/
def decodeEntry : Variant → ℕ → ℕ → ℕ
  | fat12, cluster, word => if cluster % 2 = 0 then word % 2 ^ 12 else word / 2 ^ 4
  | fat16, _, word => word % 2 ^ 16
  | fat32, _, word => word % 2 ^ 28

/-- The word at an entry's offset with the entry replaced; the other bits stay. -/
def encodeEntry : Variant → ℕ → ℕ → ℕ → ℕ
  | fat12, cluster, word, value =>
    if cluster % 2 = 0 then word / 2 ^ 12 * 2 ^ 12 + value % 2 ^ 12
    else word % 2 ^ 4 + value % 2 ^ 12 * 2 ^ 4
  | fat16, _, _, value => value % 2 ^ 16
  | fat32, _, word, value => word / 2 ^ 28 * 2 ^ 28 + value % 2 ^ 28

end Variant

/-- A mounted volume: the build of the kernel and what the constructor computes. -/
structure Volume where
  build : Build
  variant : Variant
  bytesPerSector : ℕ
  sectorsPerCluster : ℕ
  numberOfFats : ℕ
  fatSize : ℕ
  fatStart : ℕ
  rootStart : ℕ
  rootSectors : ℕ
  dataStart : ℕ
  clusterCount : ℕ
  rootDirCluster : ℕ
deriving DecidableEq, Repr

/-- The size of the transfer buffer of `io::InMemory`. -/
def kMaxTempBufSize : ℕ := 64 * 1024

def kMaxClusterSize : ℕ := 32768

def kFirstClusterNumber : ℕ := 2

namespace Volume

variable (v : Volume)

abbrev kEOC : ℕ := v.variant.kEOC

/-- `GetRootCluster`: zero stands for the fixed root directory. -/
def rootCluster : ℕ := if v.variant.kHasFixedRootDir then 0 else v.rootDirCluster

def clusterSize : ℕ := v.sectorsPerCluster * v.bytesPerSector

/-- The size of the fixed root directory in bytes. -/
def rootSize : ℕ := v.rootSectors * v.bytesPerSector

/-- `GetClusterSector_`, a 32-bit number. -/
def clusterSector (cluster : ℕ) : ℕ :=
  (v.dataStart + (cluster + 2 ^ 32 - kFirstClusterNumber) * v.sectorsPerCluster) % 2 ^ 32

/-- The address of a cluster. -/
def clusterAddress (cluster : ℕ) : ℕ := v.clusterSector cluster * v.bytesPerSector

/-- The address of the fixed root directory. -/
def rootAddress : ℕ := v.rootStart * v.bytesPerSector

/-- The address of a table entry: its sector and its offset in that sector. -/
def entryAddress (cluster : ℕ) : ℕ :=
  (v.fatStart + v.variant.entryOffset cluster / v.bytesPerSector) * v.bytesPerSector +
    v.variant.entryOffset cluster % v.bytesPerSector

/-- The table entry of a cluster. -/
def entry (disk : Bytes) (cluster : ℕ) : ℕ :=
  v.variant.decodeEntry cluster
    (disk.readLE (v.entryAddress cluster) v.variant.entryWidth)

/-- Replace the table entry of a cluster. -/
def putEntry (disk : Bytes) (cluster value : ℕ) : Bytes :=
  disk.writeLE (v.entryAddress cluster) v.variant.entryWidth
    (v.variant.encodeEntry cluster
      (disk.readLE (v.entryAddress cluster) v.variant.entryWidth) value)

/-- The bytes of a cluster. -/
def data (disk : Bytes) (cluster : ℕ) : Bytes := disk.view (v.clusterAddress cluster)

/-- Replace the bytes of a cluster. -/
def putData (disk : Bytes) (cluster : ℕ) (bytes : Bytes) : Bytes :=
  disk.blit (v.clusterAddress cluster) v.clusterSize bytes

/-- The bytes of the fixed root directory. -/
def root (disk : Bytes) : Bytes := disk.view v.rootAddress

/-- Replace the bytes of the fixed root directory. -/
def putRoot (disk bytes : Bytes) : Bytes := disk.blit v.rootAddress v.rootSize bytes

/-- The cluster numbers of the volume. -/
def InRange (cluster : ℕ) : Prop :=
  kFirstClusterNumber ≤ cluster ∧ cluster < v.clusterCount + kFirstClusterNumber

instance (cluster : ℕ) : Decidable (v.InRange cluster) :=
  inferInstanceAs (Decidable (_ ∧ _))

/-- The regions follow one another, a table covers all clusters, and sector numbers do not wrap. -/
structure Sound : Prop where
  sector : 0 < v.bytesPerSector
  sectorSlots : 32 ∣ v.bytesPerSector
  sectorSize : 2 * v.bytesPerSector ≤ kMaxTempBufSize
  cluster : 0 < v.sectorsPerCluster
  clusterFits : v.clusterSize ≤ kMaxClusterSize
  copies : 0 < v.numberOfFats
  fatRoom : ∀ cluster < v.clusterCount + kFirstClusterNumber,
    v.variant.entryOffset cluster + v.variant.entryWidth ≤ v.fatSize * v.bytesPerSector
  afterFat : v.fatStart + v.numberOfFats * v.fatSize ≤ v.rootStart
  afterRoot : v.rootStart + v.rootSectors ≤ v.dataStart
  noWrap : v.dataStart + v.clusterCount * v.sectorsPerCluster ≤ 2 ^ 32
  accepted : v.variant.acceptsCount v.clusterCount = true
  rootInRange : v.variant.kHasFixedRootDir = false → v.InRange v.rootDirCluster

/-- A fixed root directory fits the transfer buffer, so that it can be read. -/
def RootReadable : Prop := v.variant.kHasFixedRootDir = true → v.rootSize ≤ kMaxTempBufSize

/-- A fixed root directory fits the temporary buffer, so that it can be changed. -/
def RootFits : Prop := v.variant.kHasFixedRootDir = true → v.rootSize ≤ kMaxClusterSize

/-- Cluster numbers are below the end mark, and a fixed root directory fits the buffer. -/
structure Fits : Prop where
  clusters : v.clusterCount + kFirstClusterNumber ≤ v.kEOC
  rootFits : v.RootFits

end Volume

namespace Variant

variable {variant : Variant} {cluster other word value : ℕ}

/-- An entry is read back. -/
theorem decode_encode (small : word < 256 ^ variant.entryWidth) :
    variant.decodeEntry cluster
      (variant.encodeEntry cluster word value % 256 ^ variant.entryWidth) =
        value % 2 ^ variant.entryBits := by
  cases variant with
  | fat12 =>
    simp only [decodeEntry, encodeEntry, entryWidth, entryBits] at small ⊢
    split_ifs <;> omega
  | fat16 =>
    simp only [decodeEntry, encodeEntry, entryWidth, entryBits] at small ⊢
    omega
  | fat32 =>
    simp only [decodeEntry, encodeEntry, entryWidth, entryBits] at small ⊢
    omega

/-- Two entries either lie apart or are the two halves of a FAT12 triple. -/
theorem entry_apart_or_paired (variant : Variant) (different : cluster ≠ other) :
    (variant.entryOffset other + variant.entryWidth ≤ variant.entryOffset cluster ∨
      variant.entryOffset cluster + variant.entryWidth ≤ variant.entryOffset other) ∨
    (variant = .fat12 ∧ (cluster % 2 = 0 ∧ other = cluster + 1 ∨
      other % 2 = 0 ∧ cluster = other + 1)) := by
  cases variant with
  | fat12 =>
    simp only [entryOffset, entryWidth, true_and]
    omega
  | fat16 =>
    simp only [entryOffset, entryWidth]
    omega
  | fat32 =>
    simp only [entryOffset, entryWidth]
    omega

end Variant

namespace Volume

variable {v : Volume} {disk bytes : Bytes} {cluster other value i : ℕ}

theorem RootFits.readable (fits : v.RootFits) : v.RootReadable := fun fixed =>
  (fits fixed).trans (by decide)

theorem entryAddress_eq (v : Volume) (cluster : ℕ) : v.entryAddress cluster =
    v.fatStart * v.bytesPerSector + v.variant.entryOffset cluster := by
  unfold entryAddress
  rw [Nat.add_mul, Nat.add_assoc, Nat.mul_comm (_ / _), Nat.div_add_mod]

theorem entry_putEntry_self (v : Volume) (disk : Bytes) (cluster value : ℕ) :
    v.entry (v.putEntry disk cluster value) cluster = value % 2 ^ v.variant.entryBits := by
  unfold entry putEntry
  rw [Bytes.readLE_writeLE]
  exact Variant.decode_encode (Bytes.readLE_lt _ _ _)

variable (memory : Bytes)

theorem readLE_two (start : ℕ) :
    memory.readLE start 2 = (memory start).toNat + 256 * (memory (start + 1)).toNat := by
  simp [Bytes.readLE]

/-- Writing the first entry of a FAT12 triple keeps the second one. -/
theorem second_of_triple (start value : ℕ) :
    (memory.writeLE start 2 (memory.readLE start 2 / 2 ^ 12 * 2 ^ 12 + value % 2 ^ 12)).readLE
      (start + 1) 2 / 2 ^ 4 = memory.readLE (start + 1) 2 / 2 ^ 4 := by
  generalize word : memory.readLE start 2 / 2 ^ 12 * 2 ^ 12 + value % 2 ^ 12 = written
  have shared : (memory.writeLE start 2 written (start + 1)).toNat = written / 256 ^ 1 % 256 :=
    Bytes.toNat_writeLE Nat.one_lt_two
  have beyond : memory.writeLE start 2 written (start + 1 + 1) = memory (start + 1 + 1) :=
    Bytes.blit_outside (.inr (Nat.le_refl _))
  rw [readLE_two] at word
  rw [readLE_two, readLE_two, beyond]
  have low := (memory start).toNat_lt
  have middle := (memory (start + 1)).toNat_lt
  omega

/-- Writing the second entry of a FAT12 triple keeps the first one. -/
theorem first_of_triple (start value : ℕ) :
    (memory.writeLE (start + 1) 2
      (memory.readLE (start + 1) 2 % 2 ^ 4 + value % 2 ^ 12 * 2 ^ 4)).readLE start 2 % 2 ^ 12 =
      memory.readLE start 2 % 2 ^ 12 := by
  generalize word : memory.readLE (start + 1) 2 % 2 ^ 4 + value % 2 ^ 12 * 2 ^ 4 = written
  have shared : (memory.writeLE (start + 1) 2 written (start + 1 + 0)).toNat =
      written / 256 ^ 0 % 256 :=
    Bytes.toNat_writeLE Nat.zero_lt_two
  have before : memory.writeLE (start + 1) 2 written start = memory start :=
    Bytes.blit_outside (.inl (Nat.lt_succ_self start))
  rw [readLE_two] at word
  rw [readLE_two, readLE_two, shared, before]
  omega

/-- Writing an entry keeps the others. -/
theorem entry_putEntry_of_ne (different : cluster ≠ other) :
    v.entry (v.putEntry disk cluster value) other = v.entry disk other := by
  rcases Variant.entry_apart_or_paired v.variant different with apart | ⟨kind, paired⟩
  · unfold entry putEntry
    rw [Bytes.writeLE, Bytes.readLE_blit_of_disjoint]
    rw [entryAddress_eq, entryAddress_eq]
    omega
  · have next : ∀ first, first % 2 = 0 → v.entryAddress (first + 1) = v.entryAddress first + 1 := by
      intro first even
      rw [entryAddress_eq, entryAddress_eq, kind]
      simp only [Variant.entryOffset]
      omega
    unfold entry putEntry
    rcases paired with ⟨even, rfl⟩ | ⟨even, rfl⟩
    · have odd : ¬ (cluster + 1) % 2 = 0 := by omega
      rw [next cluster even]
      simp only [kind, Variant.decodeEntry, Variant.encodeEntry, even, odd]
      exact second_of_triple disk _ value
    · have odd : ¬ (other + 1) % 2 = 0 := by omega
      rw [next other even]
      simp only [kind, Variant.decodeEntry, Variant.encodeEntry, even, odd]
      exact first_of_triple disk _ value

theorem Sound.entry_inside (sound : v.Sound) (known : cluster < v.clusterCount + 2) :
    v.fatStart * v.bytesPerSector ≤ v.entryAddress cluster ∧
      v.entryAddress cluster + v.variant.entryWidth ≤
        (v.fatStart + v.fatSize) * v.bytesPerSector := by
  have room := sound.fatRoom cluster known
  rw [entryAddress_eq, Nat.add_mul]
  omega

/-- Every cluster number is a `ClusterNumT`: the table takes room as well. -/
theorem Sound.clusters_lt (sound : v.Sound) :
    v.clusterCount + kFirstClusterNumber < 2 ^ v.variant.clusterBits := by
  have accepted := sound.accepted
  change v.clusterCount + 2 < _
  cases kind : v.variant with
  | fat12 =>
    rw [kind] at accepted
    have few := of_decide_eq_true accepted
    exact lt_of_lt_of_le (Nat.add_lt_add_right few 2) (by decide)
  | fat16 =>
    rw [kind] at accepted
    have few := of_decide_eq_true (Bool.and_eq_true_iff.mp accepted).2
    exact lt_of_lt_of_le (Nat.add_lt_add_right few 2) (by decide)
  | fat32 =>
    have room := sound.fatRoom (v.clusterCount + 1) (Nat.lt_succ_self _)
    rw [kind] at room
    simp only [Variant.entryOffset, Variant.clusterBits] at room ⊢
    have sector : v.bytesPerSector ≤ 32768 := by
      have size := sound.sectorSize
      unfold kMaxTempBufSize at size
      omega
    have table : v.fatSize * v.bytesPerSector ≤ v.fatSize * 32768 := Nat.mul_le_mul_left _ sector
    have copies : 1 * v.fatSize ≤ v.numberOfFats * v.fatSize :=
      Nat.mul_le_mul_right _ sound.copies
    have clusters : v.clusterCount * 1 ≤ v.clusterCount * v.sectorsPerCluster :=
      Nat.mul_le_mul_left _ sound.cluster
    have afterFat := sound.afterFat
    have afterRoot := sound.afterRoot
    have noWrap := sound.noWrap
    omega

/-- The first table ends before the root directory. -/
theorem Sound.fat_before_root (sound : v.Sound) :
    (v.fatStart + v.fatSize) * v.bytesPerSector ≤ v.rootAddress := by
  have copies : 1 * v.fatSize ≤ v.numberOfFats * v.fatSize :=
    Nat.mul_le_mul_right _ sound.copies
  have after := sound.afterFat
  exact Nat.mul_le_mul_right _ (by omega)

/-- The root directory ends before the clusters. -/
theorem Sound.root_before_data (sound : v.Sound) :
    v.rootAddress + v.rootSize ≤ v.dataStart * v.bytesPerSector := by
  rw [rootAddress, rootSize, ← Nat.add_mul]
  exact Nat.mul_le_mul_right _ sound.afterRoot

section

variable (sound : v.Sound) (known : v.InRange cluster)
include sound known

/-- Clusters follow one another from the data region on. -/
theorem Sound.clusterAddress_eq :
    v.clusterAddress cluster =
      v.dataStart * v.bytesPerSector + (cluster - 2) * v.clusterSize := by
  obtain ⟨low, high⟩ := known
  change 2 ≤ cluster at low
  change cluster < v.clusterCount + 2 at high
  have inside : (cluster - 2) * v.sectorsPerCluster + v.sectorsPerCluster ≤
      v.clusterCount * v.sectorsPerCluster := by
    rw [← Nat.succ_mul]
    exact Nat.mul_le_mul_right _ (by omega)
  have bound := sound.noWrap
  have positive := sound.cluster
  have shift : cluster + 2 ^ 32 - kFirstClusterNumber = (cluster - 2) + 2 ^ 32 := by
    change cluster + 2 ^ 32 - 2 = _
    omega
  unfold clusterAddress clusterSector
  rw [shift, Nat.add_mul, ← Nat.add_assoc, Nat.add_mul_mod_self_left, Nat.mod_eq_of_lt (by omega),
    Nat.add_mul, clusterSize, Nat.mul_assoc]

theorem Sound.data_before_cluster : v.dataStart * v.bytesPerSector ≤ v.clusterAddress cluster := by
  rw [sound.clusterAddress_eq known]
  exact Nat.le_add_right _ _

/-- Different clusters lie apart. -/
theorem Sound.cluster_apart (otherKnown : v.InRange other) (different : cluster ≠ other) :
    v.clusterAddress cluster + v.clusterSize ≤ v.clusterAddress other ∨
      v.clusterAddress other + v.clusterSize ≤ v.clusterAddress cluster := by
  have step : ∀ {low high : ℕ}, v.InRange low → v.InRange high → low < high →
      v.clusterAddress low + v.clusterSize ≤ v.clusterAddress high := by
    intro low high lowKnown highKnown less
    rw [sound.clusterAddress_eq lowKnown, sound.clusterAddress_eq highKnown, Nat.add_assoc,
      ← Nat.succ_mul]
    have bound : (2 : ℕ) ≤ low := lowKnown.1
    exact Nat.add_le_add_left (Nat.mul_le_mul_right _ (by omega)) _
  rcases Nat.lt_or_gt_of_ne different with less | greater
  · exact .inl (step known otherKnown less)
  · exact .inr (step otherKnown known greater)

end

section

variable (sound : v.Sound)
include sound

theorem Sound.data_putEntry (known : cluster < v.clusterCount + 2) (otherKnown : v.InRange other) :
    v.data (v.putEntry disk cluster value) other i = v.data disk other i := by
  have entry := sound.entry_inside known
  have root := sound.fat_before_root
  have region := sound.root_before_data
  have cluster := sound.data_before_cluster otherKnown
  unfold data Bytes.view putEntry
  rw [Bytes.writeLE, Bytes.blit_outside]
  omega

theorem Sound.root_putEntry (known : cluster < v.clusterCount + 2) :
    v.root (v.putEntry disk cluster value) i = v.root disk i := by
  have entry := sound.entry_inside known
  have root := sound.fat_before_root
  unfold Volume.root Bytes.view putEntry
  rw [Bytes.writeLE, Bytes.blit_outside]
  omega

theorem Sound.entry_putData (known : v.InRange cluster) (otherKnown : other < v.clusterCount + 2) :
    v.entry (v.putData disk cluster bytes) other = v.entry disk other := by
  have entry := sound.entry_inside otherKnown
  have root := sound.fat_before_root
  have region := sound.root_before_data
  have cluster := sound.data_before_cluster known
  unfold Volume.entry putData
  rw [Bytes.readLE_blit_of_disjoint]
  omega

omit sound in
theorem data_putData_self (inside : i < v.clusterSize) :
    v.data (v.putData disk cluster bytes) cluster i = bytes i := by
  exact Bytes.blit_inside inside

theorem Sound.data_putData_of_ne (known : v.InRange cluster) (otherKnown : v.InRange other)
    (different : cluster ≠ other) (inside : i < v.clusterSize) :
    v.data (v.putData disk cluster bytes) other i = v.data disk other i := by
  have apart := sound.cluster_apart known otherKnown different
  unfold data Bytes.view putData
  rw [Bytes.blit_outside]
  omega

theorem Sound.root_putData (known : v.InRange cluster) (inside : i < v.rootSize) :
    v.root (v.putData disk cluster bytes) i = v.root disk i := by
  have region := sound.root_before_data
  have cluster := sound.data_before_cluster known
  unfold Volume.root Bytes.view putData
  rw [Bytes.blit_outside]
  omega

theorem Sound.entry_putRoot (known : cluster < v.clusterCount + 2) :
    v.entry (v.putRoot disk bytes) cluster = v.entry disk cluster := by
  have entry := sound.entry_inside known
  have root := sound.fat_before_root
  unfold Volume.entry putRoot
  rw [Bytes.readLE_blit_of_disjoint]
  omega

theorem Sound.data_putRoot (known : v.InRange cluster) :
    v.data (v.putRoot disk bytes) cluster i = v.data disk cluster i := by
  have region := sound.root_before_data
  have cluster := sound.data_before_cluster known
  unfold data Bytes.view putRoot
  rw [Bytes.blit_outside]
  omega

end

/-- A FAT12 volume with one-sector clusters and tables. -/
def small (copies rootSectors clusters : ℕ) : Volume where
  build := .debug
  variant := .fat12
  bytesPerSector := 512
  sectorsPerCluster := 1
  numberOfFats := copies
  fatSize := 1
  fatStart := 1
  rootStart := 1 + copies
  rootSectors := rootSectors
  dataStart := 1 + copies + rootSectors
  clusterCount := clusters
  rootDirCluster := 0

/-- The layout of a small volume is sound. -/
theorem sound_small {copies rootSectors clusters : ℕ} (some : 0 < copies)
    (few : copies + rootSectors ≤ 1000) (short : clusters ≤ 300) :
    (small copies rootSectors clusters).Sound where
  sector := show 0 < 512 by decide
  sectorSlots := show 32 ∣ 512 by decide
  sectorSize := show 2 * 512 ≤ kMaxTempBufSize by decide
  cluster := show 0 < 1 by decide
  clusterFits := show 1 * 512 ≤ kMaxClusterSize by decide
  copies := some
  fatRoom cluster below := by
    change cluster < clusters + 2 at below
    change cluster + cluster / 2 + 2 ≤ 1 * 512
    omega
  afterFat := by
    change 1 + copies * 1 ≤ 1 + copies
    omega
  afterRoot := le_refl _
  noWrap := by
    change 1 + copies + rootSectors + clusters * 1 ≤ 2 ^ 32
    omega
  accepted := by
    change decide (clusters < 4085) = true
    rw [decide_eq_true_eq]
    omega
  rootInRange fixed := nomatch fixed

end Volume

end AlkOS.Fat
