import AlkOS.Kernel.Basic

/-!
# Page metadata

One `PageMeta` record per physical page frame, kept in the `PageMetaTable`. A
pointer to a record is the number of the frame it belongs to.
-/

namespace AlkOS.Mem

def kPageSizeBytes : ℕ := 4096

/-- `PageFrameAddr(size_t)`: the physical address of a frame. -/
def pageFrameAddr (pfn : ℕ) : ℕ := pfn * kPageSizeBytes % 2 ^ 64

/-- `PageFrameNumber(PPtr<Page>)`. -/
def pageFrameNumber {σ : Type} (build : Build) (page : ℕ) : Kernel σ ℕ := do
  Kernel.assertTrue build (page % kPageSizeBytes = 0)
    "Physical page pointer is not aligned to page size"
  return page / kPageSizeBytes

/-- What a page frame is currently used for. -/
inductive PageMetaType where
  | buddy
  | allocated
  | slab
  | pageTable
  | dummy
deriving DecidableEq, Repr

/-- The metadata of one frame. The members of the source's union are kept side by side: `next` and
`prev` serve the buddy and the slab member, `cache`, `freelist` and `inuse` the slab member,
`refCount` the page table member. -/
structure PageMeta where
  type : PageMetaType
  order : ℕ
  next : Option ℕ
  prev : Option ℕ
  cache : Option ℕ
  freelist : ℕ
  inuse : ℕ
  refCount : ℕ
deriving DecidableEq, Repr

namespace PageMeta

def initBuddy (page : PageMeta) (order : ℕ) : PageMeta :=
  { page with type := .buddy, order := order, next := none, prev := none }

def initSlab (page : PageMeta) (order : ℕ) (cache : Option ℕ) (freelist inuse : ℕ) : PageMeta :=
  { page with
    type := .slab, order := order, next := none, prev := none
    cache := cache, freelist := freelist, inuse := inuse }

def initAllocated (page : PageMeta) (order : ℕ) : PageMeta :=
  { page with type := .allocated, order := order }

def initPageTable (page : PageMeta) (order : ℕ) : PageMeta :=
  { page with type := .pageTable, order := order, refCount := 0 }

end PageMeta

/-- The metadata of all frames, which have 64-bit physical addresses. -/
structure PageMetaTable where
  pageFramesMetas : ℕ → PageMeta
  numPageFrames : ℕ
  addressable : numPageFrames * kPageSizeBytes ≤ 2 ^ 64

namespace PageMetaTable

def totalPages (pmt : PageMetaTable) : ℕ := pmt.numPageFrames

/-- Overwrite one frame's record. -/
def set (pmt : PageMetaTable) (pfn : ℕ) (page : PageMeta) : PageMetaTable :=
  { pmt with pageFramesMetas := Function.update pmt.pageFramesMetas pfn page }

end PageMetaTable

theorem pageFrameAddr_div {pmt : PageMetaTable} {pfn : ℕ} (inside : pfn < pmt.numPageFrames) :
    pageFrameAddr pfn = pfn * kPageSizeBytes := by
  have bound := pmt.addressable
  unfold kPageSizeBytes at bound
  unfold pageFrameAddr kPageSizeBytes
  exact Nat.mod_eq_of_lt (by omega)

/-- A frame's number is recovered from its address. -/
theorem pageFrameAddr_number {pmt : PageMetaTable} {pfn : ℕ} (inside : pfn < pmt.numPageFrames) :
    pageFrameAddr pfn / kPageSizeBytes = pfn := by
  rw [pageFrameAddr_div inside]
  exact Nat.mul_div_cancel pfn (by decide)

theorem run_pageFrameNumber_mul {σ : Type} {build : Build} {pfn : ℕ} {s : σ} :
    (pageFrameNumber build (pfn * kPageSizeBytes)).run s = .ok pfn s := by
  unfold pageFrameNumber
  rw [Kernel.run_bind (Kernel.run_assertTrue (Nat.mul_mod_left pfn kPageSizeBytes)),
    Nat.mul_div_cancel pfn (by decide : 0 < kPageSizeBytes)]
  rfl

theorem run_pageFrameNumber_pageFrameAddr {σ : Type} {build : Build} {pmt : PageMetaTable}
    {pfn : ℕ} {s : σ} (inside : pfn < pmt.numPageFrames) :
    (pageFrameNumber build (pageFrameAddr pfn)).run s = .ok pfn s := by
  rw [pageFrameAddr_div inside]
  exact run_pageFrameNumber_mul

end AlkOS.Mem
