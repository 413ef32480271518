import AlkOS.Foundation.RadixTree
import AlkOS.Hal.PageMap
import AlkOS.Kernel.Basic

/-!
# The memory management unit

`arch::Mmu` walks and changes four-level page tables. A pointer to a table is the number
of its frame. Tables are allocated, freed and counted by a context, which keeps a state
of its own.
-/

namespace AlkOS.Hal

open Function

/-- The words of each physical frame. -/
abbrev Frames := ℕ → Fin 512 → PageMapEntry

/-- Physical memory and the state of the context. -/
structure Machine (κ : Type) where
  frames : Frames
  ctx : κ

/-- The operations that the concept `MmuContext` asks for. -/
structure MmuContext (κ : Type) where
  allocateTable (level : ℕ) : Kernel (Machine κ) (Except MemError ℕ)
  freeTable (table level : ℕ) : Kernel (Machine κ) Unit
  increaseUsage (table : ℕ) : Kernel (Machine κ) Unit
  decreaseUsage (table : ℕ) : Kernel (Machine κ) Bool

namespace Mmu

variable {κ : Type}

instance tableLength : NeZero 512 := ⟨by decide⟩

/-- `PmeIdx`: the nine bits of an address that index a table of a level. -/
def pmeIdx (level : ℕ) (vaddr : BitVec 64) : Fin 512 :=
  Fin.ofNat 512 (vaddr >>> (12 + (level - 1) * 9)).toNat

def readEntry (table : ℕ) (idx : Fin 512) : Kernel (Machine κ) PageMapEntry := do
  return (← get).frames table idx

/-- Overwrite one word of memory. -/
def setEntry (frames : Frames) (table : ℕ) (idx : Fin 512) (entry : PageMapEntry) : Frames :=
  update frames table (update (frames table) idx entry)

def writeEntry (table : ℕ) (idx : Fin 512) (entry : PageMapEntry) : Kernel (Machine κ) Unit :=
  modify fun m => { m with frames := setEntry m.frames table idx entry }

variable (ctx : MmuContext κ)

/-- Give an entry that is not present a new table of the level below. -/
def attachTable (level table : ℕ) (idx : Fin 512) :
    Kernel (Machine κ) (Except MemError Unit) := do
  let allocated ← ctx.allocateTable level
  match allocated with
  | .error error => return .error error
  | .ok next => do
      let entry ← readEntry table idx
      writeEntry table idx (entry.setNextLevelTable next kDefTableFlags)
      ctx.increaseUsage table
      return .ok ()

/-- One level of the walk of `Map`: the next table, which is allocated if there is none. -/
def nextTable (level table : ℕ) (idx : Fin 512) :
    Kernel (Machine κ) (Except MemError ℕ) := do
  let entry ← readEntry table idx
  let attached ← (if entry.isPresent then pure (.ok ()) else attachTable ctx level table idx)
  match attached with
  | .error error => return .error error
  | .ok () => return .ok (← readEntry table idx).getNextLevelTable

/-- The walk of `Map` from a table down to the level 1 table. -/
def walkAllocating (vaddr : BitVec 64) :
    ℕ → ℕ → Kernel (Machine κ) (Except MemError ℕ)
  | 0, table => return .ok table
  | level + 1, table => do
      let next ← nextTable ctx (level + 1) table (pmeIdx (level + 2) vaddr)
      match next with
      | .error error => return .error error
      | .ok next => walkAllocating vaddr level next

/-- The leaf of `Map`. -/
def mapLeaf (pt : ℕ) (vaddr paddr : BitVec 64) (flags : PageFlags) :
    Kernel (Machine κ) (Except MemError Unit) := do
  let pte ← readEntry pt (pmeIdx 1 vaddr)
  if pte.isPresent then
    return .error .invalidArgument
  else do
    writeEntry pt (pmeIdx 1 vaddr) (PageMapEntry.setFrameAddress paddr (toArchFlags flags))
    ctx.increaseUsage pt
    return .ok ()

def map (root : ℕ) (vaddr paddr : BitVec 64) (flags : PageFlags) :
    Kernel (Machine κ) (Except MemError Unit) := do
  let walked ← walkAllocating ctx vaddr 3 root
  match walked with
  | .error error => return .error error
  | .ok pt => mapLeaf ctx pt vaddr paddr flags

/-- The walk of `Unmap`: the tables and indices passed, nearest first, and the level 1 table. -/
def walkDown (frames : Frames) (vaddr : BitVec 64) :
    ℕ → ℕ → List (ℕ × Fin 512) → Option (List (ℕ × Fin 512) × ℕ)
  | 0, table, parents =>
    if (frames table (pmeIdx 1 vaddr)).isPresent then some (parents, table) else none
  | level + 1, table, parents =>
    let idx := pmeIdx (level + 2) vaddr
    if (frames table idx).isPresent then
      walkDown frames vaddr level (frames table idx).getNextLevelTable ((table, idx) :: parents)
    else none

/-- The cleanup of `Unmap`: tables that became empty are freed, the root apart. -/
def cleanUp : ℕ → ℕ → List (ℕ × Fin 512) → Kernel (Machine κ) Unit
  | _, table, [] => do
      let _ ← ctx.decreaseUsage table
  | level, table, (parent, idx) :: parents => do
      let empty ← ctx.decreaseUsage table
      if empty then do
        ctx.freeTable table level
        writeEntry parent idx 0
        cleanUp (level + 1) parent parents
      else pure ()

def unmap (root : ℕ) (vaddr : BitVec 64) : Kernel (Machine κ) Unit := do
  let m ← get
  match walkDown m.frames vaddr 3 root [] with
  | none => pure ()
  | some (parents, pt) => do
      writeEntry pt (pmeIdx 1 vaddr) 0
      cleanUp ctx 1 pt parents

def translate (frames : Frames) (root : ℕ) (vaddr : BitVec 64) : Except MemError (BitVec 64) :=
  let pml4e := frames root (pmeIdx 4 vaddr)
  if !pml4e.isPresent then .error .notFound else
  let pdpte := frames pml4e.getNextLevelTable (pmeIdx 3 vaddr)
  if !pdpte.isPresent then .error .notFound else
  if pdpte.isHuge 3 then .ok (pdpte.getFrameAddress1Gb + (vaddr &&& 0x3FFFFFFF)) else
  let pde := frames pdpte.getNextLevelTable (pmeIdx 2 vaddr)
  if !pde.isPresent then .error .notFound else
  if pde.isHuge 2 then .ok (pde.getFrameAddress2Mb + (vaddr &&& 0x1FFFFF)) else
  let pte := frames pde.getNextLevelTable (pmeIdx 1 vaddr)
  if !pte.isPresent then .error .notFound else
  .ok (pte.getFrameAddress + (vaddr &&& 0xFFF))

def setPageFlags (root : ℕ) (vaddr : BitVec 64) (flags : PageFlags) :
    Kernel (Machine κ) (Except MemError Unit) := do
  let frames := (← get).frames
  let pml4e := frames root (pmeIdx 4 vaddr)
  if !pml4e.isPresent then return .error .notFound else
  let pdpte := frames pml4e.getNextLevelTable (pmeIdx 3 vaddr)
  if !pdpte.isPresent then return .error .notFound else
  if pdpte.isHuge 3 then return .error .invalidArgument else
  let pde := frames pdpte.getNextLevelTable (pmeIdx 2 vaddr)
  if !pde.isPresent then return .error .notFound else
  if pde.isHuge 2 then return .error .invalidArgument else
  let pte := frames pde.getNextLevelTable (pmeIdx 1 vaddr)
  if !pte.isPresent then return .error .notFound else
  writeEntry pde.getNextLevelTable (pmeIdx 1 vaddr)
    (PageMapEntry.setFrameAddress pte.getFrameAddress (toArchFlags flags))
  return .ok ()

/-- The count of the first pass of `VisitTables` over a table. -/
def countPresent (frames : Frames) (table : ℕ) : ℕ :=
  ((List.finRange 512).filter fun idx => (frames table idx).isPresent).length

/-- `VisitTables` from a table of a level down. -/
def visitTables (visitor : ℕ → ℕ → ℕ → Kernel (Machine κ) Unit) :
    ℕ → ℕ → Kernel (Machine κ) Unit
  | 0, _ => pure ()
  | level + 1, table => do
      let m ← get
      visitor table (level + 1) (countPresent m.frames table)
      (if level = 0 then pure ()
        else (List.finRange 512).forM fun idx => do
          let entry ← readEntry table idx
          (if entry.isPresent && !entry.isHuge (level + 1) then
              visitTables visitor level entry.getNextLevelTable
            else pure ()))

def destroyTable : ℕ → ℕ → Kernel (Machine κ) Unit
  | 0, _ => pure ()
  | level + 1, table => do
      (List.finRange 512).forM fun idx => do
        let entry ← readEntry table idx
        (if level ≠ 0 && entry.isPresent && !entry.isHuge (level + 1) then
            destroyTable level entry.getNextLevelTable
          else pure ())
        writeEntry table idx 0
      ctx.freeTable table (level + 1)

/-- The entries of a root table that belong to the lower half. -/
def lowerHalf : List (Fin 512) := (List.finRange 512).filter fun idx => idx.val < 256

def clearUserMappings (root : ℕ) : Kernel (Machine κ) Unit :=
  lowerHalf.forM fun idx => do
    let entry ← readEntry root idx
    (if entry.isPresent then do
        destroyTable ctx 3 entry.getNextLevelTable
        writeEntry root idx 0
      else pure ())

/-- `CopyKernelSpace`: the upper 256 entries of the root. -/
def copyKernelSpace (dstRoot kernelRoot : ℕ) : Kernel (Machine κ) Unit :=
  modify fun m => { m with
    frames := update m.frames dstRoot fun idx =>
      if 256 ≤ idx.val then m.frames kernelRoot idx else m.frames dstRoot idx }

def syncMapping (dstRoot srcRoot : ℕ) (vaddr : BitVec 64) : Kernel (Machine κ) Bool := do
  let idx := pmeIdx 4 vaddr
  if idx.val < 256 then
    return false
  else do
    let srcEntry ← readEntry srcRoot idx
    let dstEntry ← readEntry dstRoot idx
    if srcEntry.isPresent && (!dstEntry.isPresent || dstEntry.frame != srcEntry.frame) then do
      writeEntry dstRoot idx srcEntry
      return true
    else
      return false

end Mmu

end AlkOS.Hal
