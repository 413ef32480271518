import AlkOS.Foundation.Bytes
import AlkOS.Mem.Buddy.Basic

/-!
# Slab caches

A `KmemCache` cuts blocks of the buddy allocator into objects of one size. The free
objects of a slab form a list of indices, kept behind the objects or in an object of
another cache. Slabs hang on three intrusive lists. The direct map is taken as the
identity, and a cache is named by a number.
-/

namespace AlkOS.Mem

/-- The width of one freelist entry. -/
inductive MetadataSize where
  | byte
  | word
  | dword
  | qword
deriving DecidableEq, Repr

def MetadataSize.bytes : MetadataSize → ℕ
  | .byte => 1
  | .word => 2
  | .dword => 4
  | .qword => 8

/-- The three lists of a cache: `slabs_partial_`, `slabs_full_` and `slabs_free_`. -/
inductive SlabList where
  | partly
  | full
  | free
deriving DecidableEq, Repr

/-- The fields of a cache that `Init` fixes. -/
structure SlabLayout where
  objSize : ℕ
  numObjects : ℕ
  metadataSize : MetadataSize
  blockOrder : ℕ
  isOffSlab : Bool
  metaCache : Option ℕ
deriving DecidableEq, Repr

structure KmemCache extends SlabLayout where
  slabs : SlabList → Option ℕ
  numSlabsTotal : ℕ
  numSlabsPartial : ℕ
  numSlabsFree : ℕ

namespace SlabLayout

/-- `kFreelistSentinel`: all ones. -/
def kFreelistSentinel : ℕ := 2 ^ 64 - 1

variable (layout : SlabLayout)

/-- The address of a freelist entry. -/
def slot (base idx : ℕ) : ℕ :=
  (base + layout.metadataSize.bytes * idx) % 2 ^ 64

variable (memory : Bytes)

/-- `GetNextFreeIdx`: an entry of all ones stands for the sentinel. -/
def getNextFreeIdx (base currentIdx : ℕ) : ℕ :=
  let val := memory.readLE (layout.slot base currentIdx) layout.metadataSize.bytes
  if val = 256 ^ layout.metadataSize.bytes - 1 then kFreelistSentinel else val

/-- `SetNextFreeIdx`: the stored index is cut to the width of the entry. -/
def setNextFreeIdx (base currentIdx nextIdx : ℕ) : Bytes :=
  memory.writeLE (layout.slot base currentIdx) layout.metadataSize.bytes nextIdx

/-- The index of an object's entry: off-slab arrays keep the head index in front. -/
def shift : ℕ := if layout.isOffSlab then 1 else 0

/-- The address of an object of the slab at `slabBase`. -/
def objAddr (slabBase idx : ℕ) : ℕ :=
  (slabBase + idx * layout.objSize) % 2 ^ 64

/-- The freelist array: behind the objects, or where the slab's metadata says. -/
def metaBase (slabBase freelist : ℕ) : ℕ :=
  if layout.isOffSlab then freelist else layout.objAddr slabBase layout.numObjects

/-- The index the freelist of a slab starts with. -/
def headIdx (freelist : ℕ) : ℕ :=
  if layout.isOffSlab then layout.getNextFreeIdx memory freelist 0 else freelist

/-- The index that follows an object's in the freelist of its slab. -/
def nextIdx (base idx : ℕ) : ℕ :=
  layout.getNextFreeIdx memory base ((idx + layout.shift) % 2 ^ 64)

/-- One turn of the loops of `AllocSlab` over the freelist. -/
def linkFree (base : ℕ) (memory : Bytes) (i : ℕ) : Bytes :=
  layout.setNextFreeIdx memory base (i + layout.shift)
    (if i = layout.numObjects - 1 then kFreelistSentinel else i + 1)

/-- The freelist `AllocSlab` writes. -/
def writeFreelist (base : ℕ) (memory : Bytes) : Bytes :=
  (List.range layout.numObjects).foldl (layout.linkFree base)
    (if layout.isOffSlab then layout.setNextFreeIdx memory base 0 0 else memory)

end SlabLayout

/-- The caches, the buddy allocator they draw on, and memory. -/
structure SlabHeap where
  buddy : BuddyPmm
  memory : Bytes
  caches : ℕ → KmemCache

variable (build : Build)

namespace SlabHeap

variable (s : SlabHeap)

/-- The metadata of a frame. -/
def metaAt (pfn : ℕ) : PageMeta := s.buddy.metaAt pfn

/-- Overwrite the metadata of a frame. -/
def setMeta (pfn : ℕ) (page : PageMeta) : SlabHeap :=
  { s with buddy := s.buddy.setMeta pfn page }

/-- Overwrite a cache object. -/
def setCache (self : ℕ) (cache : KmemCache) : SlabHeap :=
  { s with caches := Function.update s.caches self cache }

/-- A call into the buddy allocator. -/
def onBuddy {α : Type} (run : Kernel BuddyPmm α) : Kernel SlabHeap α :=
  Kernel.zoom (·.buddy) (fun s buddy => { s with buddy := buddy }) run

variable (page : ℕ)

/-- Read through a metadata pointer. -/
def load : Kernel SlabHeap PageMeta := do return (← get).metaAt page

/-- Write through a metadata pointer. -/
def store (value : PageMeta) : Kernel SlabHeap Unit := modify (setMeta · page value)

def asSlab : Kernel SlabHeap Unit := do
  Kernel.assertTrue build ((← load page).type = .slab) "meta.type == PageMetaType::Slab"

end SlabHeap

namespace KmemCache

open SlabHeap SlabLayout

/-- What `Init` leaves in the cache object. -/
def initialised (size order numObjs : ℕ) (metaSize : MetadataSize) (offSlab : Bool)
    (mCache : Option ℕ) : KmemCache where
  objSize := size
  numObjects := numObjs
  metadataSize := metaSize
  blockOrder := order
  isOffSlab := offSlab
  metaCache := mCache
  slabs := fun _ => none
  numSlabsTotal := 0
  numSlabsPartial := 0
  numSlabsFree := 0

def init (self size order numObjs : ℕ) (metaSize : MetadataSize) (offSlab : Bool)
    (mCache : Option ℕ) : Kernel SlabHeap Unit := do
  Kernel.assertTrue build (size ≠ 0) "size != 0"
  Kernel.assertTrue build (numObjs ≠ 0) "num_objs != 0"
  modify (setCache · self (initialised size order numObjs metaSize offSlab mCache))
  Kernel.assertTrue build (offSlab = true → mCache ≠ none) "Off-slab cache requires a meta cache"

/-- `num_slabs_*_++`. -/
def incr (count : ℕ) : ℕ := (count + 1) % 2 ^ 64

/-- `num_slabs_*_--`. -/
def decr (count : ℕ) : ℕ := (count + (2 ^ 64 - 1)) % 2 ^ 64

def setHead (cache : KmemCache) (list : SlabList) (head : Option ℕ) : KmemCache :=
  { cache with slabs := Function.update cache.slabs list head }

/-- Read a cache object. -/
def loadCache (self : ℕ) : Kernel SlabHeap KmemCache := do return (← get).caches self

/-- Update a cache object. -/
def update (self : ℕ) (change : KmemCache → KmemCache) : Kernel SlabHeap Unit :=
  modify fun s => s.setCache self (change (s.caches self))

/-- The common body of `AddToPartial`, `AddToFull` and `AddToFree`. -/
def addTo (list : SlabList) (build : Build) (self slab : ℕ) : Kernel SlabHeap Unit := do
  asSlab build slab
  let head := (← loadCache self).slabs list
  store slab { ← load slab with next := head }
  store slab { ← load slab with prev := none }
  if let some first := head then
    asSlab build first
    store first { ← load first with prev := some slab }
  update self (setHead · list (some slab))

def addToPartial : Build → ℕ → ℕ → Kernel SlabHeap Unit := addTo .partly

def addToFull : Build → ℕ → ℕ → Kernel SlabHeap Unit := addTo .full

def addToFree : Build → ℕ → ℕ → Kernel SlabHeap Unit := addTo .free

/-- The list `RemoveFromList` takes a slab without predecessor to head. -/
def headedBy (cache : KmemCache) (slab : ℕ) : Option SlabList :=
  if cache.slabs .partly = some slab then some .partly
  else if cache.slabs .full = some slab then some .full
  else if cache.slabs .free = some slab then some .free
  else none

/-- The first half of `RemoveFromList`: whatever led to the slab now leads past it. -/
def bypassForward (self slab : ℕ) : Kernel SlabHeap Unit := do
  let sm ← load slab
  match sm.prev with
  | some prev => do
      asSlab build prev
      store prev { ← load prev with next := sm.next }
  | none => update self fun cache =>
    match cache.headedBy slab with
    | some list => cache.setHead list sm.next
    | none => cache

/-- The second half of `RemoveFromList`: the successor leads back past the slab. -/
def bypassBackward (slab : ℕ) : Kernel SlabHeap Unit := do
  let sm ← load slab
  if let some next := sm.next then
    asSlab build next
    store next { ← load next with prev := sm.prev }

def removeFromList (self slab : ℕ) : Kernel SlabHeap Unit := do
  asSlab build slab
  bypassForward build self slab
  bypassBackward build slab
  store slab { ← load slab with next := none }
  store slab { ← load slab with prev := none }

/-- The common body of `MoveToPartial`, `MoveToFull` and `MoveToFree`. -/
def moveTo (list : SlabList) (build : Build) (self slab : ℕ) : Kernel SlabHeap Unit := do
  removeFromList build self slab
  addTo list build self slab

def moveToPartial : Build → ℕ → ℕ → Kernel SlabHeap Unit := moveTo .partly

def moveToFull : Build → ℕ → ℕ → Kernel SlabHeap Unit := moveTo .full

def moveToFree : Build → ℕ → ℕ → Kernel SlabHeap Unit := moveTo .free

/-- `AllocSlab` behind the allocations: the freelist, the tags and the list. -/
def installSlab (self physPage metaBase : ℕ) : Kernel SlabHeap Unit := do
  let cache ← loadCache self
  modify fun s => { s with memory := cache.writeFreelist metaBase s.memory }
  let startPfn ← pageFrameNumber build physPage
  let freelistVal := if cache.isOffSlab then metaBase else 0
  (List.range (2 ^ cache.blockOrder)).forM fun i => do
    let page ← onBuddy (BuddyPmm.getPageMeta build (startPfn + i))
    store page ((← load page).initSlab cache.blockOrder (some self) freelistVal 0)
  let slabMeta ← onBuddy (BuddyPmm.getPageMeta build startPfn)
  addToPartial build self slabMeta
  update self fun cache =>
    { cache with
      numSlabsTotal := incr cache.numSlabsTotal
      numSlabsPartial := incr cache.numSlabsPartial }

/-- The freelist array of a new slab. An off-slab cache asks its meta cache. -/
def allocMeta (metaAlloc : ℕ → Kernel SlabHeap (Except MemError ℕ)) (self physPage : ℕ) :
    Kernel SlabHeap (Except MemError ℕ) := do
  let cache ← loadCache self
  if cache.isOffSlab then
    match cache.metaCache with
    | some other => metaAlloc other
    | none => throw (.undefined "Off-slab cache must be initialized")
  else
    return .ok (cache.objAddr physPage cache.numObjects)

def allocSlab (metaAlloc : ℕ → Kernel SlabHeap (Except MemError ℕ)) (build : Build) (self : ℕ) :
    Kernel SlabHeap (Except MemError ℕ) := do
  let cache ← loadCache self
  match ← onBuddy (BuddyPmm.alloc build cache.blockOrder) with
  | .error error => return .error error
  | .ok physPage =>
    match ← allocMeta metaAlloc self physPage with
    | .error error => do
        onBuddy (BuddyPmm.free build physPage)
        return .error error
    | .ok metaBase => do
        installSlab build self physPage metaBase
        return .ok physPage

def grow (metaAlloc : ℕ → Kernel SlabHeap (Except MemError ℕ)) (build : Build) (self : ℕ) :
    Kernel SlabHeap Bool := do
  match ← allocSlab metaAlloc build self with
  | .ok _ => return true
  | .error _ => return false

/-- The first part of `Alloc`: make sure that there is a partial slab. -/
def ensurePartial (metaAlloc : ℕ → Kernel SlabHeap (Except MemError ℕ)) (build : Build)
    (self : ℕ) : Kernel SlabHeap Bool := do
  let cache ← loadCache self
  match cache.slabs .partly, cache.slabs .free with
  | some _, _ => return true
  | none, some slab => do
      moveToPartial build self slab
      update self fun cache =>
        { cache with
          numSlabsFree := decr cache.numSlabsFree
          numSlabsPartial := incr cache.numSlabsPartial }
      return true
  | none, none => grow metaAlloc build self

/-- The freelist of a slab without its first index. -/
def popFree (self slab currentIdx : ℕ) : Kernel SlabHeap Unit := do
  let cache ← loadCache self
  let sm ← load slab
  let base := cache.metaBase (pageFrameAddr slab) sm.freelist
  let next := cache.nextIdx (← get).memory base currentIdx
  if cache.isOffSlab then
    modify fun s => { s with memory := cache.setNextFreeIdx s.memory base 0 next }
  else
    store slab { sm with freelist := next }

/-- The end of `Alloc`: a slab without free objects leaves the partial list. -/
def retireFull (self slab : ℕ) : Kernel SlabHeap Unit := do
  if (← load slab).inuse = (← loadCache self).numObjects then
    moveToFull build self slab
    update self fun cache => { cache with numSlabsPartial := decr cache.numSlabsPartial }

/-- The second part of `Alloc`: take the first free object of the first partial
slab. -/
def takeObject (self : ℕ) : Kernel SlabHeap ℕ := do
  let cache ← loadCache self
  match cache.slabs .partly with
  | none => throw (.undefined "Must have a partial slab after Grow/Move")
  | some slab => do
      asSlab build slab
      let pfn ← onBuddy (BuddyPmm.getPageFrameNumber build slab)
      let currentIdx := cache.headIdx (← get).memory (← load slab).freelist
      Kernel.assertTrue build (currentIdx ≠ kFreelistSentinel) "Partial slab must have free objects"
      popFree self slab currentIdx
      store slab { ← load slab with inuse := ((← load slab).inuse + 1) % 2 ^ 16 }
      retireFull build self slab
      return cache.objAddr (pageFrameAddr pfn) currentIdx

/-- `Alloc`. A call passes through different caches, since they are locked; `depth` bounds their
number, and a call that needs more never returns. -/
def alloc : (depth self : ℕ) → Kernel SlabHeap (Except MemError ℕ)
  | 0, _ => throw (.undefined "lock_ is held by the caller")
  | depth + 1, self => do
      if ← ensurePartial (alloc depth) build self then
        return .ok (← takeObject build self)
      else
        return .error .outOfMemory

/-- The freelist of a slab with one more index in front. -/
def pushFree (self slab objIdx : ℕ) : Kernel SlabHeap Unit := do
  let cache ← loadCache self
  let sm ← load slab
  let base := cache.metaBase (pageFrameAddr slab) sm.freelist
  let oldHead := cache.headIdx (← get).memory sm.freelist
  Kernel.rAssertTrue (objIdx ≠ oldHead) "Double free detected"
  modify fun s =>
    { s with
      memory := cache.setNextFreeIdx s.memory base ((objIdx + cache.shift) % 2 ^ 64)
        oldHead }
  if cache.isOffSlab then
    modify fun s => { s with memory := cache.setNextFreeIdx s.memory base 0 objIdx }
  else
    store slab { sm with freelist := objIdx }

/-- The last part of `Free`: move the slab to the list it now belongs to. -/
def relist (self slab : ℕ) : Kernel SlabHeap Unit := do
  let cache ← loadCache self
  let inuse := (← load slab).inuse
  if inuse = 0 then
    moveToFree build self slab
    update self fun cache =>
      { cache with
        numSlabsPartial :=
          if cache.numObjects > 1 then decr cache.numSlabsPartial else cache.numSlabsPartial
        numSlabsFree := incr cache.numSlabsFree }
  else if inuse = decr cache.numObjects then
    moveToPartial build self slab
    update self fun cache => { cache with numSlabsPartial := incr cache.numSlabsPartial }

def free (self ptr : ℕ) : Kernel SlabHeap Unit := do
  let pfn := ptr / kPageSizeBytes
  let page ← onBuddy (BuddyPmm.getPageMeta build pfn)
  let order := (← load page).order
  let slab ← onBuddy (BuddyPmm.getPageMeta build (pfn / 2 ^ order * 2 ^ order))
  asSlab build slab
  Kernel.rAssertTrue ((← load slab).type = .slab) "Page must be a slab"
  Kernel.rAssertTrue ((← load slab).cache = some self) "Pointer does not belong to this cache"
  let offset := (ptr + 2 ^ 64 - pageFrameAddr slab) % 2 ^ 64
  pushFree self slab (offset / (← loadCache self).objSize)
  store slab { ← load slab with inuse := ((← load slab).inuse + (2 ^ 16 - 1)) % 2 ^ 16 }
  relist build self slab

end KmemCache

end AlkOS.Mem
