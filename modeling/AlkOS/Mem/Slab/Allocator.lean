import AlkOS.Mem.Slab.Runs

/-!
# The caches of the kernel heap

`SlabAllocator` has ten caches for objects of 8 to 4096 bytes. The order of their blocks
is chosen by a table; caches for objects of 512 bytes and more keep their freelists in
objects of a smaller cache.
-/

namespace AlkOS.Mem

namespace SlabEfficiency

/-- `kEfficiencyTolerance`, the `float` nearest to 0.01, in units of 2 to the power -30. -/
def kEfficiencyTolerance : ℕ := 10737418

def buddyAreaSize (order : ℕ) : ℕ := kPageSizeBytes <<< order

/-- `FreeListItemType`: the narrowest type whose largest value the objects cannot reach. -/
def freeListItemType (objectSize blockOrder : ℕ) : MetadataSize :=
  if buddyAreaSize blockOrder / (objectSize + 1) < 2 ^ 8 - 1 then .byte
  else if buddyAreaSize blockOrder / (objectSize + 2) < 2 ^ 16 - 1 then .word
  else if buddyAreaSize blockOrder / (objectSize + 4) < 2 ^ 32 - 1 then .dword
  else .qword

def capacity (objectSize blockOrder : ℕ) : ℕ :=
  buddyAreaSize blockOrder / (objectSize + (freeListItemType objectSize blockOrder).bytes)

/-- `kMaxOrder` of the buddy allocator bounds the orders that are compared. -/
def kNumBlockOrders : ℕ := BuddyPmm.kMaxOrder + 1

structure EfficiencyData where
  efficiency : ℕ
  blockOrder : ℕ
deriving DecidableEq, Repr

/-- `kSpaceEfficiency`, in units of 2 to the power -22, so that the quotient is exact. -/
def efficiencyData (objectSize blockOrder : ℕ) : EfficiencyData where
  efficiency := capacity objectSize blockOrder * objectSize <<< (BuddyPmm.kMaxOrder - blockOrder)
  blockOrder := blockOrder

/-- `EfficiencyData::operator<`. -/
def EfficiencyData.less (left right : EfficiencyData) : Bool :=
  let diff := max left.efficiency right.efficiency - min left.efficiency right.efficiency
  if diff * 2 ^ 8 ≤ kEfficiencyTolerance then left.blockOrder > right.blockOrder
  else left.efficiency < right.efficiency

/-- The inner loop of `InsertionSort`, over the sorted part from its end. -/
def insertKey (key : EfficiencyData) : List EfficiencyData → List EfficiencyData
  | [] => [key]
  | last :: before =>
    if last.less key then last :: insertKey key before else key :: last :: before

def insertionSort (items : List EfficiencyData) : List EfficiencyData :=
  (items.foldl (fun sorted key => insertKey key sorted) []).reverse

/-- `GenerateSortedBlockOrders`: a row of `kSlabEfficiencyTable`. -/
def sortedBlockOrders (objectSize : ℕ) : List ℕ :=
  (insertionSort ((List.range kNumBlockOrders).map (efficiencyData objectSize))).map (·.blockOrder)

end SlabEfficiency

namespace SlabAllocator

open SlabEfficiency

def kNumSizeClasses : ℕ := 10

/-- The loop of `GetCache`. -/
def findClass (size : ℕ) : (left s idx : ℕ) → Option ℕ
  | 0, _, _ => none
  | left + 1, s, idx => if s < size then findClass size left (2 * s) (idx + 1) else some idx

/-- `GetCache`: the number of the first cache whose objects are large enough. -/
def getCache (size : ℕ) : Option ℕ :=
  if size = 0 then none else findClass size kNumSizeClasses 8 0

/-- The entry width `InitCacheHelper` chooses for off-slab freelists. -/
def offSlabMetaSize (numObjs : ℕ) : MetadataSize :=
  if numObjs ≤ 2 ^ 8 - 1 then .byte
  else if numObjs ≤ 2 ^ 16 - 1 then .word
  else if numObjs ≤ 2 ^ 32 - 1 then .dword
  else .qword

/-- The configuration `InitCacheHelper` gives to the cache with this number. -/
def initCacheHelper (index : ℕ) : SlabLayout :=
  let objSize := 1 <<< (index + 3)
  let order := (sortedBlockOrders objSize).headD 0
  if 512 ≤ objSize then
    let numObjs := buddyAreaSize order / objSize
    let metaSize := offSlabMetaSize numObjs
    ⟨objSize, numObjs, metaSize, order, true, getCache ((numObjs + 1) * metaSize.bytes)⟩
  else
    ⟨objSize, capacity objSize order, freeListItemType objSize order, order, false, none⟩

variable (c : ℕ)

/-- The configurations after `Init`, with no caches beyond the last size class. -/
def layouts : SlabLayout := initCacheHelper (min c (kNumSizeClasses - 1))

theorem layouts_eq : ∃ i < kNumSizeClasses, layouts c = initCacheHelper i := by
  refine ⟨min c (kNumSizeClasses - 1), ?_, rfl⟩
  exact lt_of_le_of_lt (min_le_right _ _) (by decide)

/-- What the configurations amount to. -/
theorem initCacheHelper_facts : ∀ i < kNumSizeClasses,
    (initCacheHelper i).objSize = 2 ^ (i + 3) ∧ 0 < (initCacheHelper i).numObjects ∧
    (initCacheHelper i).numObjects < 2 ^ 16 ∧
    (initCacheHelper i).numObjects < 256 ^ (initCacheHelper i).metadataSize.bytes ∧
    (initCacheHelper i).numObjects * (initCacheHelper i).objSize +
      (if (initCacheHelper i).isOffSlab then 0 else (initCacheHelper i).arraySize) ≤
        2 ^ (initCacheHelper i).blockOrder * kPageSizeBytes ∧
    (initCacheHelper i).metaCache = (if (initCacheHelper i).isOffSlab then some 4 else none) ∧
    (initCacheHelper i).isOffSlab = decide (5 < i) ∧
    ((initCacheHelper i).isOffSlab = true → (initCacheHelper i).arraySize ≤ 128) := by
  decide

theorem layouts_valid : SlabLayout.Valid layouts c := by
  obtain ⟨i, inside, same⟩ := layouts_eq c
  obtain ⟨size, objects, _, narrow, block, metaCache, _, array⟩ := initCacheHelper_facts i inside
  rw [← same] at size objects narrow block metaCache array
  refine ⟨?_, objects, narrow, block, fun off => ⟨4, ?_, array off⟩⟩
  · rw [size]
    exact Nat.two_pow_pos _
  · rw [metaCache, if_pos off]

theorem layouts_few : (layouts c).numObjects < 2 ^ 16 := by
  obtain ⟨i, inside, same⟩ := layouts_eq c
  rw [same]
  exact (initCacheHelper_facts i inside).2.2.1

/-- Only caches for small objects are meta caches, so calls pass through at most two caches. -/
theorem layouts_within : KmemCache.Within layouts kNumSizeClasses c := by
  intro off m used
  obtain ⟨i, inside, same⟩ := layouts_eq c
  have metaCache := (initCacheHelper_facts i inside).2.2.2.2.2.1
  rw [← same, if_pos off, used] at metaCache
  cases metaCache
  intro nested
  cases nested

/-- The search stops at a class whose objects are large enough. -/
theorem findClass_eq_some {size left s idx c : ℕ} (found : findClass size left s idx = some c) :
    idx ≤ c ∧ c < idx + left ∧ size ≤ s * 2 ^ (c - idx) := by
  induction left generalizing s idx with
  | zero => cases found
  | succ left ih =>
    unfold findClass at found
    by_cases smaller : s < size
    · rw [if_pos smaller] at found
      obtain ⟨lower, upper, enough⟩ := ih found
      refine ⟨by omega, by omega, ?_⟩
      have power : 2 ^ (c - idx) = 2 * 2 ^ (c - (idx + 1)) := by
        rw [← pow_succ']
        congr 1
        omega
      rw [power, ← mul_assoc, mul_comm s 2]
      exact enough
    · rw [if_neg smaller] at found
      cases found
      rw [Nat.sub_self]
      omega

/-- The search succeeds when the last class is large enough. -/
theorem exists_findClass {size n s idx : ℕ} (enough : size ≤ s * 2 ^ n) :
    ∃ c, findClass size (n + 1) s idx = some c := by
  induction n generalizing s idx with
  | zero =>
    rw [pow_zero, mul_one] at enough
    exact ⟨idx, if_neg (Nat.not_lt.mpr enough)⟩
  | succ n ih =>
    unfold findClass
    by_cases smaller : s < size
    · rw [if_pos smaller]
      apply ih
      rw [pow_succ', ← mul_assoc, mul_comm s 2] at enough
      exact enough
    · exact ⟨idx, if_neg smaller⟩

/-- `GetCache` finds a cache for every size up to that of the largest objects. -/
theorem exists_getCache {size : ℕ} (positive : size ≠ 0) (small : size ≤ kPageSizeBytes) :
    ∃ c, getCache size = some c ∧ c < kNumSizeClasses ∧ size ≤ (layouts c).objSize := by
  obtain ⟨c, found⟩ : ∃ c, findClass size (9 + 1) 8 0 = some c := exists_findClass small
  obtain ⟨_, upper, enough⟩ := findClass_eq_some found
  have inside : c < kNumSizeClasses := by
    exact upper
  refine ⟨c, (if_neg positive).trans found, inside, ?_⟩
  have same : layouts c = initCacheHelper c := by
    unfold layouts
    rw [min_eq_left (Nat.le_sub_one_of_lt inside)]
  rw [same, (initCacheHelper_facts c inside).1, pow_add, mul_comm]
  exact enough

end SlabAllocator

end AlkOS.Mem
