import AlkOS.Mem.Bitmap.Alloc
import AlkOS.Mem.Buddy.Correctness

/-!
# The memory module at boot

The constructor of `MemoryModule` starts the bitmap allocator, takes the frames
of the page metadata table from it, gives the frames of the boot loader's lower
half tables back, and lets the buddy allocator take over free frames.
-/

namespace AlkOS

open Mem

/-- What the boot loader passes on: the frames, the bitmap of used ones, and lower half tables. -/
structure BootArguments where
  totalPageFrames : ℕ
  memBitmap : ℕ → Bool
  lowerHalfTables : List ℕ
  addressable : totalPageFrames * kPageSizeBytes ≤ 2 ^ 64

/-- The two allocators and the physical address of the page metadata table. -/
structure MemoryModule where
  bitmapPmm : BitmapPmm
  buddyPmm : BuddyPmm
  pageFramesMetas : ℕ

namespace MemoryModule

/-- `sizeof(PageMeta)`. -/
def sizeofPageMeta : ℕ := 40

def kInitialBuddyPagesLimit : ℕ := 4096

/-- Run a computation of the bitmap allocator. -/
def onBitmap {α : Type} (run : Kernel BitmapPmm α) : Kernel MemoryModule α :=
  Kernel.zoom bitmapPmm (fun m pmm => { m with bitmapPmm := pmm }) run

/-- Run a computation of the buddy allocator. -/
def onBuddy {α : Type} (run : Kernel BuddyPmm α) : Kernel MemoryModule α :=
  Kernel.zoom buddyPmm (fun m pmm => { m with buddyPmm := pmm }) run

def numPagesForPmt (totalPages : ℕ) : ℕ :=
  (totalPages * sizeofPageMeta + kPageSizeBytes - 1) / kPageSizeBytes

variable (build : Build)

/-- `PageMetaTable::Init(total_pages, b_pmm)`: the records keep what was in their memory. -/
def initPageMetaTable (args : BootArguments) : Kernel MemoryModule Unit := do
  match ← onBitmap (BitmapPmm.alloc build (numPagesForPmt args.totalPageFrames)) with
  | .error _ => Kernel.guardAccess build False "Failed to allocate memory for PageMetaTable"
  | .ok page => modify fun m => { m with
      pageFramesMetas := page
      buddyPmm.pmt := {
        pageFramesMetas := m.buddyPmm.pmt.pageFramesMetas
        numPageFrames := args.totalPageFrames
        addressable := args.addressable } }

/-- `BootstrapMmuContext::FreeTable`. -/
def bootFreeTable (table : ℕ) : Kernel MemoryModule Unit := do
  let pfn ← pageFrameNumber build table
  onBuddy do
    let frame ← BuddyPmm.getPageMeta build pfn
    BuddyPmm.store frame ((← BuddyPmm.load frame).initAllocated 0)
  onBitmap (BitmapPmm.free build table 1)

/-- The constructor up to and including `BuddyPmm::Init`. -/
def initPhysical (args : BootArguments) : Kernel MemoryModule Unit := do
  onBitmap (BitmapPmm.init build ⟨args.memBitmap, args.totalPageFrames⟩)
  initPageMetaTable build args
  args.lowerHalfTables.forM (bootFreeTable build)
  let m ← get
  onBuddy (BuddyPmm.init build m.bitmapPmm m.buddyPmm.pmt kInitialBuddyPagesLimit)

end MemoryModule

end AlkOS
