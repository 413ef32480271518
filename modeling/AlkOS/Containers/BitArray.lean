import AlkOS.Kernel.Basic

/-!
# Bit arrays

`data_structures::BitArray`, an array of bits stored in bytes. The scans return
the position of a bit, or nothing where the source returns the greatest
`size_t`.
-/

namespace AlkOS.Containers

open Kernel

/-- The number of bits in a unit of storage. -/
def kStorageBits : ℕ := 8

/-- The number of units that hold the given number of bits. -/
def kNumStorage (numBits : ℕ) : ℕ := (numBits + kStorageBits - 1) / kStorageBits

/-- `BitArray<kNumBits>`: the units of its storage. -/
structure BitArray (numBits : ℕ) where
  storage : List (BitVec kStorageBits)
  length_eq : storage.length = kNumStorage numBits
deriving DecidableEq

namespace BitArray

variable {numBits : ℕ} {bits : BitArray numBits} {i : ℕ}

/-- The array as constructed: every bit is clear. -/
def empty (numBits : ℕ) : BitArray numBits :=
  ⟨List.replicate (kNumStorage numBits) 0, List.length_replicate⟩

/-- A unit of storage. -/
def unit (bits : BitArray numBits) (i : ℕ) : BitVec kStorageBits := bits.storage.getD i 0

/-- Whether a bit is set. -/
def bit (bits : BitArray numBits) (index : ℕ) : Bool :=
  (bits.unit (index / kStorageBits)).getLsbD (index % kStorageBits)

/-- Overwrite a unit of storage. -/
def setUnit (bits : BitArray numBits) (i : ℕ) (unit : BitVec kStorageBits) : BitArray numBits :=
  ⟨bits.storage.set i unit, by rw [List.length_set, bits.length_eq]⟩

/-- `kLsb<StorageT>`. -/
def lsb : BitVec kStorageBits := 1

def setFalse (build : Build) (index : ℕ) : Kernel (BitArray numBits) Unit := do
  guardAccess build (index < numBits) "Index out of bounds in BitArray"
  modify fun bits => bits.setUnit (index / kStorageBits)
    (bits.unit (index / kStorageBits) &&& ~~~(lsb <<< (index % kStorageBits)))

variable (value : Bool)

/-- The unit in which no bit has the given value. -/
def emptyUnit : BitVec kStorageBits := if value then 0 else BitVec.allOnes _

/-- `std::countr_zero` or `std::countr_one`. -/
def countr (unit : BitVec kStorageBits) : ℕ :=
  (if value then unit else ~~~unit).ctz.toNat

/-- `std::countl_zero` or `std::countl_one`. -/
def countl (unit : BitVec kStorageBits) : ℕ :=
  (if value then unit else ~~~unit).clz.toNat

/-- The loop of `FindFirst` over the units from `i` on. -/
def findFirstFrom : ℕ → List (BitVec kStorageBits) → Option ℕ
  | _, [] => none
  | i, unit :: rest =>
    if unit = emptyUnit value then findFirstFrom (i + 1) rest
    else some (i * kStorageBits + countr value unit)

def findFirst (bits : BitArray numBits) : Option ℕ :=
  findFirstFrom value 0 bits.storage

/-- The loop of `FindLast` with `i` units left, which does not stop at the first unit. -/
def findLastFrom (bits : BitArray numBits) : ℕ → Except Panic ℕ
  | 0 => .error (.undefined "storage_[-1]")
  | i + 1 =>
    if bits.unit i = emptyUnit value then findLastFrom bits i
    else .ok (i * kStorageBits + countl value (bits.unit i))

def findLast (bits : BitArray numBits) : Except Panic ℕ :=
  bits.findLastFrom value (kNumStorage numBits)

def isAllSet (bits : BitArray numBits) : Bool := (bits.findFirst !value).isNone

def isAllFalse (bits : BitArray numBits) : Bool := bits.isAllSet false

@[simp] theorem unit_empty (numBits i : ℕ) : (empty numBits).unit i = 0 := by
  unfold unit empty
  by_cases inside : i < kNumStorage numBits
  · rw [List.getD_eq_getElem _ _ (by rwa [List.length_replicate]), List.getElem_replicate]
  · rw [List.getD_eq_default _ _ (by rw [List.length_replicate]; omega)]

@[simp] theorem bit_empty (numBits index : ℕ) : (empty numBits).bit index = false := by
  rw [bit, unit_empty]
  exact BitVec.getLsbD_zero

theorem findFirstFrom_replicate (count : ℕ) :
    findFirstFrom true i (List.replicate count 0) = none := by
  induction count generalizing i with
  | zero => rfl
  | succ count ih =>
    exact ih

@[simp] theorem findFirst_empty (numBits : ℕ) : (empty numBits).findFirst true = none :=
  findFirstFrom_replicate _

@[simp] theorem isAllFalse_empty (numBits : ℕ) : (empty numBits).isAllFalse = true := by
  change ((empty numBits).findFirst true).isNone = true
  rw [findFirst_empty]
  rfl

/-- The scan for the last set bit runs past the start of the storage. -/
theorem findLast_empty (numBits : ℕ) :
    (empty numBits).findLast true = .error (.undefined "storage_[-1]") := by
  unfold findLast
  induction kNumStorage numBits with
  | zero => rfl
  | succ count ih =>
    rw [findLastFrom, unit_empty]
    exact ih

end BitArray

end AlkOS.Containers
