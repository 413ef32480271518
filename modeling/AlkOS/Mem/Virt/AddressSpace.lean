import AlkOS.Containers.LinkedList
import AlkOS.Hal.PageMap
import AlkOS.Mem.PageMeta

/-!
# Address spaces

`AddressSpace` keeps its `VMemArea` objects in a list sorted by start address. A pointer
to an area is a number. The page tables are not part of this model: the answers of
`Mmu::SetPageFlags` are an argument of `UpdateAreaFlags`.
-/

namespace AlkOS.Mem

open Containers Hal

def kKernelSpaceStart : BitVec 64 := 0xFFFF800000000000

def isKernelSpace (address : BitVec 64) : Bool := kKernelSpaceStart ≤ address

structure VirtualMemAreaFlags where
  readable : Bool
  writable : Bool
  executable : Bool
  writeThrough : Bool := false
  cacheDisable : Bool := false
deriving DecidableEq, Repr

/-- A virtual memory area: its range and permissions. -/
structure VMemArea where
  start : BitVec 64
  size : BitVec 64
  flags : VirtualMemAreaFlags
deriving DecidableEq, Repr

/-- `GetEnd`, computed modulo `2 ^ 64`. -/
def VMemArea.getEnd (vma : VMemArea) : BitVec 64 := vma.start + vma.size

structure TlbHint where
  start : BitVec 64
  size : BitVec 64
deriving DecidableEq, Repr

/-- The area list, the area objects and those passed to `KDelete`, latest first. -/
structure AddressSpace where
  areaList : LinkedList ℕ
  vmas : ℕ → VMemArea
  deleted : List ℕ

namespace AddressSpace

variable (as : AddressSpace) (vma : ℕ)

/-- `KNew` of an area object at a given place. -/
def kNew (area : VMemArea) : AddressSpace :=
  { as with vmas := Function.update as.vmas vma area }

/-- `KDelete` of an area object. -/
def kDelete : AddressSpace :=
  { as with deleted := vma :: as.deleted }

/-- The area object an iterator points to. -/
def areaAt (node : ℕ) : VMemArea := as.vmas (as.areaList.data node)

def areasOverlap (a b : VMemArea) : Bool := a.start < b.getEnd && b.start < a.getEnd

def isAddrInArea (vma : VMemArea) (ptr : BitVec 64) : Bool := vma.start ≤ ptr && ptr < vma.getEnd

/-- Adopt the list of an insertion and report a failed node allocation. -/
def adopt (inserted : Option ℕ × LinkedList ℕ) : Kernel AddressSpace (Except MemError Unit) := do
  modify fun as => { as with areaList := inserted.2 }
  return if inserted.1 = none then .error .outOfMemory else .ok ()

/-- The loop of `AddArea`. `allocated` is the node that `AllocateNode` would return. -/
def addAreaLoop (allocated : Option ℕ) :
    ℕ → Option ℕ → Kernel AddressSpace (Except MemError Unit)
  | _, none => do adopt ((← get).areaList.pushBack allocated vma)
  | 0, some _ => throw (.undefined "area list does not end")
  | count + 1, some pos => do
      let as ← get
      if areasOverlap (as.areaAt pos) (as.vmas vma) then
        return .error .invalidArgument
      else if (as.vmas vma).start < (as.areaAt pos).start then
        adopt (match as.areaList.prev pos with
          | some before => as.areaList.emplaceAfter (some before) allocated vma
          | none => as.areaList.emplaceFront allocated vma)
      else
        addAreaLoop allocated count (as.areaList.next pos)

/-- The scope guard of `AddArea`: unless dismissed it deletes the object. -/
def vmaGuard (result : Except MemError Unit) :
    Kernel AddressSpace (Except MemError Unit) :=
  match result with
  | .ok () => return .ok ()
  | .error error => do
      modify fun as => as.kDelete vma
      return .error error

def addArea (allocated : Option ℕ) : Kernel AddressSpace (Except MemError Unit) := do
  let as ← get
  Kernel.rAssertTrue ((as.vmas vma).start.toNat % kPageSizeBytes = 0) "VMA start is not aligned"
  Kernel.rAssertTrue ((as.vmas vma).size.toNat % kPageSizeBytes = 0) "VMA size is not aligned"
  let result ← addAreaLoop vma allocated as.areaList.size as.areaList.head
  vmaGuard vma result

/-- The loop of `FindAreaLocked` from an iterator on. -/
def findAreaLoop (ptr : BitVec 64) : ℕ → Option ℕ → Kernel AddressSpace (Except MemError ℕ)
  | _, none => return .error .notFound
  | 0, some _ => throw (.undefined "area list does not end")
  | count + 1, some pos => do
      let as ← get
      if isAddrInArea (as.areaAt pos) ptr then
        return .ok pos
      else
        findAreaLoop ptr count (as.areaList.next pos)

def findAreaLocked (ptr : BitVec 64) : Kernel AddressSpace (Except MemError ℕ) := do
  let as ← get
  findAreaLoop ptr as.areaList.size as.areaList.head

/-- The part of `RmArea` behind a successful search. -/
def rmFound (node : ℕ) : Kernel AddressSpace (Except MemError TlbHint) := do
  let as ← get
  let vma := as.areaList.data node
  modify fun as => { as with areaList := as.areaList.remove (some node) }
  modify fun as => as.kDelete vma
  return .ok ⟨(as.vmas vma).start, (as.vmas vma).size⟩

def rmArea (ptr : BitVec 64) : Kernel AddressSpace (Except MemError TlbHint) := do
  let found ← findAreaLocked ptr
  match found with
  | .error error => return .error error
  | .ok node => rmFound node

/-- The page flags of an area's mappings. -/
def toPageFlags (start : BitVec 64) (vmaf : VirtualMemAreaFlags) : PageFlags where
  present := true
  writable := vmaf.writable
  userAccessible := !isKernelSpace start
  writeThrough := vmaf.writeThrough
  cacheDisable := vmaf.cacheDisable
  isGlobal := isKernelSpace start
  noExecute := !vmaf.executable

/-- The pages `UpdateAreaFlags` visits, up to an end taken modulo `2 ^ 64`. -/
def flagPages (area : VMemArea) : List (BitVec 64) :=
  (List.range' area.start.toNat
    ((area.getEnd.toNat - area.start.toNat + (kPageSizeBytes - 1)) / kPageSizeBytes)
    kPageSizeBytes).map (BitVec.ofNat 64)

variable (setPageFlags : BitVec 64 → PageFlags → Except MemError Unit)

/-- The first error of the flag loop; pages without a mapping are skipped. -/
def flagLoop (flags : PageFlags) :
    List (BitVec 64) → Except MemError Unit
  | [] => .ok ()
  | page :: pages =>
    match setPageFlags page flags with
    | .error .notFound => flagLoop flags pages
    | .error error => .error error
    | .ok () => flagLoop flags pages

/-- The part of `UpdateAreaFlags` behind a successful search. -/
def updateFound (ptr : BitVec 64)
    (vmaf : VirtualMemAreaFlags) (node : ℕ) : Kernel AddressSpace (Except MemError TlbHint) := do
  let as ← get
  let vma := as.areaList.data node
  let area := as.vmas vma
  if area.start ≠ ptr then
    return .error .invalidArgument
  else
    modify fun as => { as with vmas := Function.update as.vmas vma { area with flags := vmaf } }
    return match flagLoop setPageFlags (toPageFlags area.start vmaf) (flagPages area) with
      | .error error => .error error
      | .ok () => .ok ⟨area.start, area.size⟩

def updateAreaFlags
    (ptr : BitVec 64) (vmaf : VirtualMemAreaFlags) :
    Kernel AddressSpace (Except MemError TlbHint) := do
  let found ← findAreaLocked ptr
  match found with
  | .error error => return .error error
  | .ok node => updateFound setPageFlags ptr vmaf node

end AddressSpace

end AlkOS.Mem
