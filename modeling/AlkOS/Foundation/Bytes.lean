import Mathlib

/-!
# Byte memories

Memory as a map from addresses to bytes, with block copies and little-endian
numbers of any width. A number is read back from where it was written, and
writes outside a block do not change what is read from it.
-/

/-- A memory. -/
abbrev Bytes := ℕ → UInt8

namespace Bytes

/-- The memory from an address on. -/
def view (memory : Bytes) (start : ℕ) : Bytes := fun i => memory (start + i)

/-- Overwrite a block with the first bytes of a source. -/
def blit (memory : Bytes) (start size : ℕ) (source : Bytes) : Bytes := fun address =>
  if start ≤ address ∧ address < start + size then source (address - start) else memory address

/-- The little-endian number in a block. -/
def readLE (memory : Bytes) : ℕ → ℕ → ℕ
  | _, 0 => 0
  | start, width + 1 => (memory start).toNat + 256 * readLE memory (start + 1) width

/-- The little-endian bytes of a number. -/
def leBytes (value : ℕ) : Bytes := fun i => UInt8.ofNat (value / 256 ^ i)

/-- Write a number into a block. -/
def writeLE (memory : Bytes) (start width value : ℕ) : Bytes :=
  memory.blit start width (leBytes value)

variable {memory memory' source : Bytes} {start size address width value i : ℕ}

theorem blit_inside (inside : i < size) : memory.blit start size source (start + i) = source i := by
  unfold blit
  rw [if_pos ⟨Nat.le_add_right _ _, Nat.add_lt_add_left inside _⟩, Nat.add_sub_cancel_left]

theorem blit_outside (outside : address < start ∨ start + size ≤ address) :
    memory.blit start size source address = memory address := by
  unfold blit
  rw [if_neg (by omega)]

theorem readLE_congr (same : ∀ i < width, memory (start + i) = memory' (start + i)) :
    readLE memory start width = readLE memory' start width := by
  induction width generalizing start with
  | zero => rfl
  | succ width ih =>
    have first : memory start = memory' start := same 0 (Nat.succ_pos width)
    rw [readLE, readLE, first, ih]
    intro i inside
    have later := same (i + 1) (Nat.succ_lt_succ inside)
    rwa [Nat.add_comm i 1, ← Nat.add_assoc] at later

theorem readLE_lt (memory : Bytes) (start width : ℕ) : readLE memory start width < 256 ^ width := by
  induction width generalizing start with
  | zero => exact Nat.one_pos
  | succ width ih =>
    have low := (memory start).toNat_lt
    have high := ih (start + 1)
    rw [readLE]
    omega

theorem readLE_view (memory : Bytes) (start offset width : ℕ) :
    readLE (memory.view start) offset width = readLE memory (start + offset) width := by
  induction width generalizing offset with
  | zero => rfl
  | succ width ih =>
    rw [readLE, ih]
    rfl

theorem readLE_leBytes (value start width : ℕ) :
    readLE (leBytes value) start width = value / 256 ^ start % 256 ^ width := by
  induction width generalizing start with
  | zero => rw [pow_zero, Nat.mod_one]; rfl
  | succ width ih =>
    have low : (leBytes value start).toNat = value / 256 ^ start % 256 :=
      UInt8.toNat_ofNat'
    rw [readLE, ih, low, pow_succ 256 start, ← Nat.div_div_eq_div_mul, pow_succ' 256 width,
      Nat.mod_mul]

theorem toNat_writeLE (inside : i < width) :
    (memory.writeLE start width value (start + i)).toNat = value / 256 ^ i % 256 := by
  rw [writeLE, blit_inside inside]
  exact UInt8.toNat_ofNat'

/-- A number is read back from where it was written. -/
theorem readLE_writeLE (memory : Bytes) (start width value : ℕ) :
    readLE (memory.writeLE start width value) start width = value % 256 ^ width := by
  have same : readLE (memory.writeLE start width value) start width =
      readLE (leBytes value) 0 width := by
    have shift := readLE_view (memory.writeLE start width value) start 0 width
    rw [Nat.add_zero] at shift
    rw [← shift]
    apply readLE_congr
    intro i inside
    rw [Nat.zero_add]
    exact blit_inside inside
  rw [same, readLE_leBytes, pow_zero, Nat.div_one]

/-- Writing back a block in which a number was changed writes the number. -/
theorem blit_writeLE_view {offset : ℕ} (inside : offset + width ≤ size) :
    memory.blit start size ((memory.view start).writeLE offset width value) =
      memory.writeLE (start + offset) width value := by
  funext address
  by_cases block : start ≤ address ∧ address < start + size
  · obtain ⟨i, rfl⟩ := Nat.exists_eq_add_of_le block.1
    rw [blit_inside (by omega), writeLE, writeLE, blit, blit, view]
    simp only [Nat.add_assoc, Nat.add_le_add_iff_left, Nat.add_lt_add_iff_left,
      Nat.add_sub_add_left]
  · rw [blit_outside (by omega), writeLE, blit_outside (by omega)]

/-- Writing a block does not change the numbers outside it. -/
theorem readLE_blit_of_disjoint (apart : address + width ≤ start ∨ start + size ≤ address) :
    readLE (memory.blit start size source) address width = readLE memory address width := by
  apply readLE_congr
  intro i inside
  exact blit_outside (by omega)

end Bytes
