import AlkOS.Mem.PageMeta

/-!
# Bitmap physical memory manager

`BitmapPmm` keeps one bit per page frame in a `BitMapView`; a clear bit marks a
free frame. Allocation searches downwards from the last allocation and then
once more from the end of the map.
-/

namespace AlkOS.Mem

open Kernel

/-- A view of `numBits` bits. -/
structure BitMapView where
  bits : ℕ → Bool
  numBits : ℕ

namespace BitMapView

def size (view : BitMapView) : ℕ := view.numBits

/-- `Get`: the bit at an index. -/
def get {σ : Type} (build : Build) (view : BitMapView) (index : ℕ) : Kernel σ Bool := do
  Kernel.guardAccess build (index < view.numBits) "Index out of bounds"
  return view.bits index

/-- The view after one bit was written. -/
def write (view : BitMapView) (index : ℕ) (value : Bool) : BitMapView :=
  { view with bits := Function.update view.bits index value }

variable (view : BitMapView) (index other : ℕ) (value : Bool)

theorem write_bits :
    (view.write index value).bits other = if other = index then value else view.bits other := by
  simp only [write, Function.update_apply]

theorem run_get {σ : Type} {build : Build} {s : σ} (inside : index < view.numBits) :
    (view.get build index).run s = .ok (view.bits index) s := by
  unfold get
  rw [run_bind (run_guardAccess inside)]
  rfl

end BitMapView

/-- The bitmap allocator: the bitmap and the frame of the last allocation. -/
structure BitmapPmm where
  bitmapView : BitMapView
  lastAllocIdx : ℕ

namespace BitmapPmm

/-- The bit value `BitMapAllocated`. -/
def bitMapAllocated : Bool := true

/-- The bit value `BitMapFree`. -/
def bitMapFree : Bool := false

variable (build : Build)

/-- `Init`: adopt a bitmap and search from its end. -/
def init (bmv : BitMapView) : Kernel BitmapPmm Unit := do
  Kernel.assertTrue build (bmv.size > 0) "bmv.Size() > 0"
  set { bitmapView := bmv, lastAllocIdx := (bmv.size + 2 ^ 64 - 1) % 2 ^ 64 : BitmapPmm }

theorem init_eq_ok {build : Build} {bmv : BitMapView} {pmm pmm' : BitmapPmm} {value : Unit}
    (ran : (init build bmv).run pmm = .ok value pmm') :
    pmm' = ⟨bmv, (bmv.numBits + 2 ^ 64 - 1) % 2 ^ 64⟩ := by
  obtain ⟨_, middle, _, adopted⟩ := run_bind_eq_ok ran
  injection adopted with _ adopted
  exact adopted.symm

def isFree {σ : Type} (build : Build) (pmm : BitmapPmm) (pfn : ℕ) : Kernel σ Bool := do
  return (← pmm.bitmapView.get build pfn) == bitMapFree

def isAllocated {σ : Type} (build : Build) (pmm : BitmapPmm) (pfn : ℕ) : Kernel σ Bool := do
  return (← pmm.bitmapView.get build pfn) == bitMapAllocated

/-- The bitmap has the frame as free. -/
def FrameFree (pmm : BitmapPmm) (pfn : ℕ) : Prop := pmm.bitmapView.bits pfn = bitMapFree

instance (pmm : BitmapPmm) : DecidablePred pmm.FrameFree := fun pfn =>
  inferInstanceAs (Decidable (pmm.bitmapView.bits pfn = bitMapFree))

theorem run_isFree {σ : Type} {build : Build} {s : σ} {pmm : BitmapPmm} {pfn : ℕ}
    (inside : pfn < pmm.bitmapView.numBits) :
    (pmm.isFree build pfn).run s = .ok (decide (pmm.FrameFree pfn)) s := by
  unfold isFree
  rw [run_bind (BitMapView.run_get _ _ inside)]
  cases found : pmm.bitmapView.bits pfn <;> simp [FrameFree, found]

theorem run_isFree_of_not {σ : Type} (build : Build) (s : σ) {pmm : BitmapPmm} {pfn : ℕ}
    (outside : ¬ pfn < pmm.bitmapView.numBits) :
    ∃ panic, (pmm.isFree build pfn).run s = .error panic s := by
  obtain ⟨panic, stopped⟩ := run_guardAccess_of_not s outside
  exact ⟨panic, run_bind_of_error (run_bind_of_error stopped)⟩

/-- `BitMapView::Set` on the manager's view. -/
def setBit (pfn : ℕ) (value : Bool) : Kernel BitmapPmm Unit := do
  Kernel.guardAccess build (pfn < (← get).bitmapView.numBits) "Index out of bounds"
  modify fun pmm => { pmm with bitmapView := pmm.bitmapView.write pfn value }

/-- `MarkAllocated(pfn)`. -/
def markAllocated (pfn : ℕ) : Kernel BitmapPmm Unit := do
  if build = .debug then
    let free ← isFree build (← get) pfn
    Kernel.assertTrue build (free = true) "Page frame is already allocated"
  setBit build pfn bitMapAllocated

/-- `MarkFree(pfn)`. -/
def markFree (pfn : ℕ) : Kernel BitmapPmm Unit := do
  if build = .debug then
    let allocated ← isAllocated build (← get) pfn
    Kernel.assertTrue build (allocated = true) "Page frame is already free"
  setBit build pfn bitMapFree

/-- The loop of `MarkAllocated(start, end)` over `count` frames from `pfn`. -/
def markAllocatedLoop : (count pfn : ℕ) → Kernel BitmapPmm Unit
  | 0, _ => pure ()
  | count + 1, pfn => do
      markAllocated build pfn
      markAllocatedLoop count (pfn + 1)

/-- `MarkAllocated(start, end)`. -/
def markAllocatedRange (startRangePfn endRangePfn : ℕ) :
    Kernel BitmapPmm Unit := do
  Kernel.assertTrue build (startRangePfn < endRangePfn) "start_range_pfn < end_range_pfn"
  markAllocatedLoop build (endRangePfn - startRangePfn) startRangePfn

variable (numPages : ℕ)

/-- The loop of `FindContiguousBlock`, with `remaining` frames left and `count` free ones just seen.
-/
def findLoop :
    (remaining current count : ℕ) → Kernel BitmapPmm (Except MemError ℕ)
  | remaining, current, count => do
      let free ← isFree build (← get) current
      let count := if free then count + 1 else 0
      if count = numPages then
        return .ok current
      match remaining with
      | 0 => return .error .outOfMemory
      | remaining + 1 => findLoop remaining (current - 1) count

/-- `FindContiguousBlock`: the highest run of `numPages` free frames in a range. -/
def findContiguousBlock (rangeStart rangeEnd numPages : ℕ) :
    Kernel BitmapPmm (Except MemError ℕ) := do
  Kernel.assertTrue build (rangeStart < rangeEnd) "range_start_pfn < range_end_pfn"
  findLoop build numPages (rangeEnd - 1 - rangeStart) (rangeEnd - 1) 0

/-- The start of the second search of `Alloc`, with the source's 64-bit
arithmetic. -/
def secondSearchStart (lastAllocIdx numPages : ℕ) : ℕ :=
  if (numPages + 1) % 2 ^ 64 < lastAllocIdx then
    (lastAllocIdx + 2 ^ 64 - (numPages + 1) % 2 ^ 64) % 2 ^ 64
  else 0

/-- The first search of `Alloc`, below the last allocation. -/
def firstSearch : Kernel BitmapPmm (Except MemError ℕ) := do
  let lastAllocIdx := (← get).lastAllocIdx
  if lastAllocIdx ≠ 0 then findContiguousBlock build 0 lastAllocIdx numPages
  else return .error .outOfMemory

/-- The second search of `Alloc`, from shortly below the last allocation on. -/
def secondSearch : Kernel BitmapPmm (Except MemError ℕ) := do
  let pmm ← get
  findContiguousBlock build (secondSearchStart pmm.lastAllocIdx numPages) pmm.bitmapView.size
    numPages

/-- The end of `Alloc` once a search found `startPfn`. -/
def takeRun (numPages startPfn : ℕ) :
    Kernel BitmapPmm (Except MemError ℕ) := do
  markAllocatedRange build startPfn (startPfn + numPages)
  modify fun pmm => { pmm with lastAllocIdx := startPfn }
  return .ok (pageFrameAddr startPfn)

def alloc : Kernel BitmapPmm (Except MemError ℕ) := do
  if numPages = 0 then
    return .error .invalidArgument
  match ← firstSearch build numPages with
  | .ok startPfn => takeRun build numPages startPfn
  | .error _ =>
    match ← secondSearch build numPages with
    | .ok startPfn => takeRun build numPages startPfn
    | .error _ => return .error .outOfMemory

/-- The loop of `Free` over `count` frames from `pfn`. -/
def freeLoop : (count pfn : ℕ) → Kernel BitmapPmm Unit
  | 0, _ => pure ()
  | count + 1, pfn => do
      markFree build pfn
      freeLoop count (pfn + 1)

def free (page numPages : ℕ) : Kernel BitmapPmm Unit := do
  let pfn ← pageFrameNumber build page
  freeLoop build numPages pfn

end BitmapPmm

end AlkOS.Mem
