import AlkOS.Mem.Bitmap

/-!
# Buddy physical memory manager

`BuddyPmm` keeps one intrusive list of free blocks per order; the links and the
order of a block live in the metadata of its first frame.
-/

namespace AlkOS.Mem

/-- The buddy allocator together with the metadata table it works on. -/
structure BuddyPmm where
  pmt : PageMetaTable
  freelistTable : ℕ → Option ℕ

namespace BuddyPmm

def kMaxOrder : ℕ := 10

variable (s : BuddyPmm)

/-- The metadata of a frame. -/
def metaAt (pfn : ℕ) : PageMeta := s.pmt.pageFramesMetas pfn

/-- Overwrite the metadata of a frame. -/
def setMeta (pfn : ℕ) (page : PageMeta) : BuddyPmm :=
  { s with pmt := s.pmt.set pfn page }

/-- Overwrite the head of one freelist. -/
def setHead (order : ℕ) (head : Option ℕ) : BuddyPmm :=
  { s with freelistTable := Function.update s.freelistTable order head }

/-- Read through a metadata pointer. -/
def load (page : ℕ) : Kernel BuddyPmm PageMeta := do return (← get).metaAt page

/-- Write through a metadata pointer. -/
def store (page : ℕ) (value : PageMeta) : Kernel BuddyPmm Unit := modify (setMeta · page value)

variable (build : Build)

/-- `PageMetaTable::GetPageMeta`: the pointer to a frame's metadata. -/
def getPageMeta (pfn : ℕ) : Kernel BuddyPmm ℕ := do
  Kernel.guardAccess build (pfn < (← get).pmt.numPageFrames) "Page frame number is out of bounds"
  return pfn

/-- `PageMetaTable::GetPageFrameNumber`: the frame a metadata pointer belongs to. -/
def getPageFrameNumber (page : ℕ) : Kernel BuddyPmm ℕ := do
  Kernel.assertTrue build (page < (← get).pmt.numPageFrames) "Meta pointer is out of bounds"
  return page

def asBuddy (page : ℕ) : Kernel BuddyPmm ℕ := do
  Kernel.assertTrue build ((← load page).type = .buddy) "meta.type == PageMetaType::Buddy"
  return page

def getBuddyPfn (pfn order : ℕ) : ℕ := pfn ^^^ (1 <<< order)

/-- The first write of `ListRemove`: the next block's `prev` link skips the block. -/
def skipBackward (buddyMeta : ℕ) : Kernel BuddyPmm Unit := do
  if let some next := (← load buddyMeta).next then
    let nextMeta ← asBuddy build next
    store nextMeta { ← load nextMeta with prev := (← load buddyMeta).prev }

/-- The second write of `ListRemove`: the previous block's `next` link skips the
block. -/
def skipForward (buddyMeta : ℕ) : Kernel BuddyPmm Unit := do
  if let some prev := (← load buddyMeta).prev then
    let prevMeta ← asBuddy build prev
    store prevMeta { ← load prevMeta with next := (← load buddyMeta).next }

def listRemove (page : ℕ) : Kernel BuddyPmm Unit := do
  let buddyMeta ← asBuddy build page
  skipBackward build buddyMeta
  skipForward build buddyMeta
  let order := (← load page).order
  if (← get).freelistTable order = some page then
    modify (setHead · order (← load buddyMeta).next)
  store buddyMeta { ← load buddyMeta with next := none }
  store buddyMeta { ← load buddyMeta with prev := none }

def listPush (page : ℕ) : Kernel BuddyPmm Unit := do
  let order := (← load page).order
  let buddyMeta ← asBuddy build page
  store buddyMeta { ← load buddyMeta with next := (← get).freelistTable order }
  if let some head := (← get).freelistTable order then
    let headMeta ← asBuddy build head
    store headMeta { ← load headMeta with prev := some page }
  store buddyMeta { ← load buddyMeta with prev := none }
  modify (setHead · order (some page))

/-- The loop of `SplitBlock`: `count` orders are left above the target. -/
def splitLoop (pfn : ℕ) : (count order : ℕ) → Kernel BuddyPmm Unit
  | 0, _ => pure ()
  | count + 1, order => do
      let lowerOrder := order - 1
      let buddyMeta ← getPageMeta build (getBuddyPfn pfn lowerOrder)
      store buddyMeta ((← load buddyMeta).initBuddy lowerOrder)
      listPush build buddyMeta
      splitLoop pfn count lowerOrder

def splitBlock (blockToSplit targetOrder : ℕ) : Kernel BuddyPmm ℕ := do
  let currentOrder := (← load blockToSplit).order
  let pfn ← getPageFrameNumber build blockToSplit
  Kernel.assertTrue build (currentOrder > targetOrder)
    "SplitBlock called on a block that isn't larger"
  splitLoop build pfn (currentOrder - targetOrder) currentOrder
  let finalBlock ← getPageMeta build pfn
  store finalBlock { ← load finalBlock with order := targetOrder }
  return finalBlock

/-- The loop of `MergeBlock` with `room` orders left. -/
def mergeLoop : (room pfn order : ℕ) → Kernel BuddyPmm (ℕ × ℕ)
  | 0, pfn, order => return (pfn, order)
  | room + 1, pfn, order => do
      let buddyPfn := getBuddyPfn pfn order
      if buddyPfn ≥ (← get).pmt.totalPages then
        return (pfn, order)
      let buddyMeta ← getPageMeta build buddyPfn
      if (← load buddyMeta).type = .buddy ∧ (← load buddyMeta).order = order then
        listRemove build buddyMeta
        store buddyMeta { ← load buddyMeta with type := .dummy }
        mergeLoop room (min pfn buddyPfn) (order + 1)
      else
        return (pfn, order)

def mergeBlock (blockToMerge : ℕ) : Kernel BuddyPmm ℕ := do
  let order := (← load blockToMerge).order
  let pfn ← getPageFrameNumber build blockToMerge
  let (pfn, order) ← mergeLoop build (kMaxOrder - order) pfn order
  let finalBlock ← getPageMeta build pfn
  store finalBlock { ← load finalBlock with order := order }
  return finalBlock

/-- The text of the assertion that guards `Free`. -/
def doubleFreeMessage : String := "Double free detected or freeing an invalid page!"

def free (page : ℕ) : Kernel BuddyPmm Unit := do
  let pfn ← pageFrameNumber build page
  let frame ← getPageMeta build pfn
  Kernel.rAssertTrue ((← load frame).type = .allocated) doubleFreeMessage
  let mergedBlock ← mergeBlock build frame
  store mergedBlock ((← load mergedBlock).initBuddy (← load mergedBlock).order)
  listPush build mergedBlock

/-- The body of the loop of `Alloc` for a freelist that starts with `blockToAlloc`. -/
def takeBlock (order currentOrder blockToAlloc : ℕ) : Kernel BuddyPmm ℕ := do
  listRemove build blockToAlloc
  let blockToAlloc ←
    (if currentOrder > order then splitBlock build blockToAlloc order else pure blockToAlloc)
  store blockToAlloc ((← load blockToAlloc).initAllocated order)
  return pageFrameAddr (← getPageFrameNumber build blockToAlloc)

/-- The loop of `Alloc`: `count` orders from `currentOrder` are left to try. -/
def allocLoop (order : ℕ) :
    (count currentOrder : ℕ) → Kernel BuddyPmm (Except MemError ℕ)
  | 0, _ => return .error .outOfMemory
  | count + 1, currentOrder => do
      match (← get).freelistTable currentOrder with
      | none => allocLoop order count (currentOrder + 1)
      | some blockToAlloc => return .ok (← takeBlock build order currentOrder blockToAlloc)

def alloc (order : ℕ) : Kernel BuddyPmm (Except MemError ℕ) := do
  if order > kMaxOrder then
    return .error .invalidArgument
  allocLoop build order (kMaxOrder + 1 - order) order

/-- `Init` before it frees pages: empty freelists and every frame allocated. -/
def initAllocatedState (pmt : PageMetaTable) : BuddyPmm where
  pmt := { pmt with
    pageFramesMetas := fun pfn =>
      if pfn < pmt.totalPages then (pmt.pageFramesMetas pfn).initAllocated 0
      else pmt.pageFramesMetas pfn }
  freelistTable := fun order => if order ≤ kMaxOrder then none else s.freelistTable order

/-- The page loop of `Init`: `count` frames from `pfn` are left and `freed`
pages were freed. -/
def initLoop (bPmm : BitmapPmm) (pageLimit : ℕ) :
    (count pfn freed : ℕ) → Kernel BuddyPmm Unit
  | 0, _, _ => pure ()
  | count + 1, pfn, freed => do
      if freed < pageLimit then
        if ← bPmm.isFree build pfn then
          free build (pageFrameAddr pfn)
          initLoop bPmm pageLimit count (pfn + 1) (freed + 1)
        else
          initLoop bPmm pageLimit count (pfn + 1) freed

def init (bPmm : BitmapPmm) (pmt : PageMetaTable) (pageLimit : ℕ) :
    Kernel BuddyPmm Unit := do
  modify (initAllocatedState · pmt)
  initLoop build bPmm pageLimit pmt.totalPages 0 0

end BuddyPmm

end AlkOS.Mem
