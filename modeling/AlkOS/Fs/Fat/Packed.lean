import AlkOS.Fs.Fat.Chains

/-!
# The packed table of FAT12

The two bytes of a FAT12 entry may lie in two sectors. The driver reads the one or
two sectors, changes the bytes, and writes the sectors back.
-/

namespace AlkOS.Fat.Volume

open Kernel

variable {v : Volume} {disk : Bytes} {cluster other value address : ℕ}

/-- The address of the sectors that are transferred for an entry. -/
def rangeAddress (v : Volume) (cluster : ℕ) : ℕ :=
  (v.fatStart + (cluster + cluster / 2) / v.bytesPerSector) * v.bytesPerSector

/-- The offset of an entry in its sector. -/
def sectorOffset (v : Volume) (cluster : ℕ) : ℕ := (cluster + cluster / 2) % v.bytesPerSector

/-- The number of sectors that are transferred. -/
def sectorCount (v : Volume) (cluster : ℕ) : ℕ :=
  if v.sectorOffset cluster = v.bytesPerSector - 1 then 2 else 1

/-- The change that `SetFATEntry_` of FAT12 makes to the sectors of an entry. -/
def changeRange (v : Volume) (cluster value : ℕ) (range : Bytes) : Bytes :=
  let word := range.readLE (v.sectorOffset cluster) 2
  range.writeLE (v.sectorOffset cluster) 2
    (if cluster % 2 = 0 then word / 2 ^ 12 * 2 ^ 12 + value % 2 ^ 12
    else word % 2 ^ 4 + value % 2 ^ 12 * 2 ^ 4)

/-- `GetFATEntry_` of FAT12. -/
def getFATEntry12 (v : Volume) (disk : Bytes) (cluster : ℕ) : Except Panic ℕ := do
  v.checkEntry cluster
  let word := (disk.view (v.rangeAddress cluster)).readLE (v.sectorOffset cluster) 2
  return if cluster % 2 = 0 then word % 2 ^ 12 else word / 2 ^ 4

/-- `SetFATEntry_` of FAT12. -/
def setFATEntry12 (v : Volume) (cluster value : ℕ) : Kernel Bytes Unit := do
  reading fun _ => v.checkEntry cluster
  modify fun disk => disk.blit (v.rangeAddress cluster) (v.sectorCount cluster * v.bytesPerSector)
    (v.changeRange cluster value (disk.view (v.rangeAddress cluster)))

/-- The two bytes lie in the sectors that are transferred. -/
theorem sectorOffset_add_two_le (size : 2 ≤ v.bytesPerSector) (cluster : ℕ) :
    v.sectorOffset cluster + 2 ≤ v.sectorCount cluster * v.bytesPerSector := by
  have inside : v.sectorOffset cluster < v.bytesPerSector := Nat.mod_lt _ (by omega)
  unfold sectorCount
  split_ifs with last <;> omega

theorem entryAddress_of_fat12 (fat12 : v.variant = .fat12) (cluster : ℕ) :
    v.entryAddress cluster = v.rangeAddress cluster + v.sectorOffset cluster := by
  unfold entryAddress
  rw [fat12]
  rfl

/-- The sectors hold the entry. -/
theorem getFATEntry12_eq (fat12 : v.variant = .fat12) :
    v.getFATEntry12 disk cluster = v.getFATEntry disk cluster := by
  unfold getFATEntry12 getFATEntry entry
  rw [Bytes.readLE_view, ← entryAddress_of_fat12 fat12, fat12]
  rfl

/-- Writing the sectors back replaces the entry. -/
theorem setFATEntry12_eq (fat12 : v.variant = .fat12) (size : 2 ≤ v.bytesPerSector) :
    v.setFATEntry12 cluster value = v.setFATEntry cluster value := by
  unfold setFATEntry12
  congr 1
  funext _
  congr 1
  funext disk
  rw [changeRange, Bytes.blit_writeLE_view (v.sectorOffset_add_two_le size cluster),
    Bytes.readLE_view, ← entryAddress_of_fat12 fat12, putEntry, fat12]
  rfl

/-- `SetFATEntry_` of FAT12 returns, replaces one entry, and changes no byte but two. -/
theorem fat12_table_array (fat12 : v.variant = .fat12) {exponent : ℕ}
    (size : v.bytesPerSector = 2 ^ exponent) (least : 9 ≤ exponent) (most : exponent ≤ 12)
    (known : cluster < v.clusterCount + kFirstClusterNumber) (small : value < 2 ^ 12)
    (disk : Bytes) :
    ∃ disk', (v.setFATEntry12 cluster value).run disk = .ok () disk' ∧
      v.getFATEntry12 disk' cluster = .ok value ∧
      (∀ other < v.clusterCount + kFirstClusterNumber, other ≠ cluster →
        ∃ old, v.getFATEntry12 disk other = .ok old ∧ v.getFATEntry12 disk' other = .ok old) ∧
      ∀ address, address ≠ v.entryAddress cluster → address ≠ v.entryAddress cluster + 1 →
        disk' address = disk address := by
  have low : 2 ^ 9 ≤ v.bytesPerSector := size ▸ Nat.pow_le_pow_right (by decide) least
  have high : v.bytesPerSector ≤ 2 ^ 12 := size ▸ Nat.pow_le_pow_right (by decide) most
  have passes : ∀ c < v.clusterCount + kFirstClusterNumber, v.checkEntry c = .ok () := fun c =>
    checkEntry_of_size ((Nat.mul_le_mul_left 2 high).trans (by decide))
  refine ⟨v.putEntry disk cluster value, ?_, ?_, fun other known' different => ?_,
    fun address first second => ?_⟩
  · rw [setFATEntry12_eq fat12 (le_trans (by decide) low)]
    exact run_setFATEntry_of_passes (passes cluster known) disk value
  · rw [getFATEntry12_eq fat12, getFATEntry_of_passes (passes cluster known), entry_putEntry_self,
      fat12]
    exact congrArg Except.ok (Nat.mod_eq_of_lt small)
  · refine ⟨v.entry disk other, ?_⟩
    rw [getFATEntry12_eq fat12, getFATEntry12_eq fat12, getFATEntry_of_passes (passes other known'),
      getFATEntry_of_passes (passes other known'), entry_putEntry_of_ne different.symm]
    exact ⟨rfl, rfl⟩
  · rw [putEntry, fat12]
    exact Bytes.blit_outside (by change _ ∨ _ + 2 ≤ _; omega)

/-- The third cluster of a volume with sectors of 512 bytes. -/
theorem fat12_table_array_third :
    ∃ disk', ((small 1 1 8).setFATEntry12 2 0x123).run (fun _ => 0) = .ok () disk' ∧
      (small 1 1 8).getFATEntry12 disk' 2 = .ok 0x123 := by
  obtain ⟨disk', ran, got, -⟩ := fat12_table_array (v := small 1 1 8) rfl
    (show (small 1 1 8).bytesPerSector = 2 ^ 9 from rfl) (Nat.le_refl 9) (by decide)
    (show 2 < (small 1 1 8).clusterCount + 2 by decide) (show 0x123 < 2 ^ 12 by decide) fun _ => 0
  exact ⟨disk', ran, got⟩

end AlkOS.Fat.Volume
