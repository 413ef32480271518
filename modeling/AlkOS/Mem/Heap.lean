import AlkOS.Mem.Slab.Allocator

/-!
# The kernel heap

`Heap` serves requests below the page size from the caches and larger ones from the
buddy allocator. The aligned functions ask for more than is wanted and keep the original
pointer just below the aligned one. Pointers of the heap are virtual addresses of the
direct map; those of the caches are physical.
-/

namespace AlkOS.Mem.Heap

open SlabHeap SlabAllocator

def kDirectMapAddrStart : ℕ := 2 ^ 64 - 2 ^ 47

def kKernelSpaceStart : ℕ := 0xFFFF800000000000

def physToVirt (physAddr : ℕ) : ℕ := (physAddr + kDirectMapAddrStart) % 2 ^ 64

def virtToPhys (virtAddr : ℕ) : ℕ :=
  if kDirectMapAddrStart ≤ virtAddr then virtAddr - kDirectMapAddrStart
  else (virtAddr + 2 ^ 64 - kKernelSpaceStart) % 2 ^ 64

/-- `AlignUp` of 64-bit numbers. Both of its branches round down alike. -/
def alignUp (num alignment : ℕ) : ℕ :=
  if alignment ≤ 1 then num
  else (num + alignment + (2 ^ 64 - 1)) % 2 ^ 64 / alignment * alignment

/-- `BuddyPmm::SizeToPageOrder`: the number of bits of the last page's index. -/
def sizeToPageOrder (sizeBytes : ℕ) : ℕ :=
  if sizeBytes ≤ kPageSizeBytes then 0 else Nat.log2 ((sizeBytes - 1) / kPageSizeBytes) + 1

/-- The size of the block that `Malloc` takes: an object of the cache that fits, or pages. -/
def blockSize (size : ℕ) : ℕ :=
  if size < kPageSizeBytes then ((getCache size).map fun c => (layouts c).objSize).getD 0
  else 2 ^ sizeToPageOrder size * kPageSizeBytes

/-- So many pages hold the bytes. -/
theorem size_le_of_order (size : ℕ) : size ≤ 2 ^ sizeToPageOrder size * kPageSizeBytes := by
  unfold sizeToPageOrder
  by_cases page : size ≤ kPageSizeBytes
  · rw [if_pos page]
    exact page
  · rw [if_neg page]
    have bound := Nat.lt_log2_self (n := (size - 1) / kPageSizeBytes)
    have positive : 0 < kPageSizeBytes := by decide
    rw [Nat.div_lt_iff_lt_mul positive] at bound
    omega

theorem blockSize_small {size c : ℕ} (small : size < kPageSizeBytes)
    (found : getCache size = some c) : blockSize size = (layouts c).objSize := by
  rw [blockSize, if_pos small, found]
  rfl

/-- A block is as large as the request. -/
theorem le_blockSize (size : ℕ) : size ≤ blockSize size := by
  by_cases small : size < kPageSizeBytes
  · rcases Nat.eq_zero_or_pos size with rfl | positive
    · exact Nat.zero_le _
    · obtain ⟨c, found, _, enough⟩ := exists_getCache positive.ne' small.le
      rwa [blockSize_small small found]
  · rw [blockSize, if_neg small]
    exact size_le_of_order size

/-- `sizeof(AllocationHeader)`. -/
def headerSize : ℕ := 8

/-- The pointer for an address that an allocator returned. -/
def mapped (result : Except MemError ℕ) : Except MemError ℕ := result.map physToVirt

variable (build : Build) (size : ℕ)

/-- The small allocations of `Malloc`. A call passes through different caches only. -/
def mallocSmall : Kernel SlabHeap (Except MemError ℕ) := do
  match getCache size with
  | none => throw (.assertion "KMalloc called with small size but no cache fits")
  | some cache => return mapped (← KmemCache.alloc build kNumSizeClasses cache)

/-- The large allocations of `Malloc`. -/
def mallocLarge : Kernel SlabHeap (Except MemError ℕ) := do
  return mapped (← onBuddy (BuddyPmm.alloc build (sizeToPageOrder size)))

def malloc : Kernel SlabHeap (Except MemError ℕ) :=
  if size = 0 then return .error .invalidArgument
  else if size < kPageSizeBytes then mallocSmall build size
  else mallocLarge build size

/-- The part of `Free` behind the lookup: give the pointer to the owner of its frame. -/
def freeByType (page pptr : ℕ) : PageMetaType → Kernel SlabHeap Unit
  | .slab => do
      asSlab build page
      match (← load page).cache with
      | some cache => KmemCache.free build cache pptr
      | none => throw (.undefined "sm.cache is null")
  | .allocated => onBuddy (BuddyPmm.free build pptr)
  | _ => throw (.assertion "KFree called on pointer with corrupted or invalid PageMetaType")

def free (ptr : ℕ) : Kernel SlabHeap Unit :=
  if ptr = 0 then return ()
  else do
    let pptr := virtToPhys ptr
    let pfn ← pageFrameNumber build (pptr / kPageSizeBytes * kPageSizeBytes)
    let page ← onBuddy (BuddyPmm.getPageMeta build pfn)
    freeByType build page pptr (← load page).type

/-- What `MallocAligned` asks `Malloc` for. -/
def allocSize (size alignment : ℕ) : ℕ := (size + alignment + headerSize) % 2 ^ 64

/-- The address `MallocAligned` returns for a block. -/
def alignedAddr (rawAddr alignment : ℕ) : ℕ := alignUp ((rawAddr + headerSize) % 2 ^ 64) alignment

/-- Where the header of an aligned pointer is in physical memory. -/
def headerAddr (alignedAddr : ℕ) : ℕ := virtToPhys ((alignedAddr + (2 ^ 64 - headerSize)) % 2 ^ 64)

/-- `MallocAligned` keeps the original pointer below the aligned one. -/
def placeHeader (alignment : ℕ) : Except MemError ℕ → Kernel SlabHeap (Except MemError ℕ)
  | .error error => return .error error
  | .ok rawPtr => do
      let aligned := alignedAddr rawPtr alignment
      modify fun s => { s with memory := s.memory.writeLE (headerAddr aligned) headerSize rawPtr }
      return .ok aligned

def mallocAligned (size alignment : ℕ) : Kernel SlabHeap (Except MemError ℕ) :=
  if alignment = 0 ∨ alignment &&& (alignment - 1) ≠ 0 then return .error .invalidArgument
  else do placeHeader alignment (← malloc build (allocSize size alignment))

def freeAligned (ptr : ℕ) : Kernel SlabHeap Unit :=
  if ptr = 0 then return ()
  else do free build ((← get).memory.readLE (headerAddr ptr) headerSize)

end AlkOS.Mem.Heap
