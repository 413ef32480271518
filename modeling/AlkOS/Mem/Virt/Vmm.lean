import AlkOS.Mem.Mmu.UsageCounts

/-!
# User address spaces

`CreateUserAddrSpace` gives a new address space a root table with a copy of the upper
half of the kernel's root. Faults copy entries that the kernel added later. Calls into
the heap may change the allocator, but leave page tables alone.
-/

namespace AlkOS.Mem.Vmm

open Hal Hal.Mmu BuddyPmm RadixTree

/-- The page tables are the same before and after. -/
structure SameTables (m m' : Machine BuddyPmm) : Prop where
  serves : ∃ pool lists live, ServesTables m'.ctx pool lists live
  tables : m'.ctx.pageTables = m.ctx.pageTables
  metas : ∀ table ∈ m.ctx.pageTables, m'.ctx.metaAt table = m.ctx.metaAt table
  frames : ∀ table ∈ m.ctx.pageTables, m'.frames table = m.frames table

/-- Wherever the call returns, the page tables are as before. -/
def KeepsTables {α : Type} (call : Kernel (Machine BuddyPmm) α) : Prop :=
  ∀ m value m', (∃ pool lists live, ServesTables m.ctx pool lists live) →
    EStateM.run call m = .ok value m' → SameTables m m'

theorem KeepsTables.pure {α : Type} (value : α) :
    KeepsTables (pure value : Kernel (Machine BuddyPmm) α) := by
  intro m result m' serves ran
  cases ran
  exact ⟨serves, rfl, fun _ _ => rfl, fun _ _ => rfl⟩

/-- The heap as the life of a user address space sees it. -/
structure Heap where
  newAddressSpace : Kernel (Machine BuddyPmm) (Except MemError Unit)
  newKernelSyncVMemArea : Kernel (Machine BuddyPmm) Bool
  addArea : Kernel (Machine BuddyPmm) (Except MemError Unit)
  deleteAreas : Kernel (Machine BuddyPmm) Unit
  deleteAddressSpace : Kernel (Machine BuddyPmm) Unit
  newAddressSpace_keeps : KeepsTables newAddressSpace
  newKernelSyncVMemArea_keeps : KeepsTables newKernelSyncVMemArea
  addArea_keeps : KeepsTables addArea
  deleteAreas_keeps : KeepsTables deleteAreas
  deleteAddressSpace_keeps : KeepsTables deleteAddressSpace

/-- The root fields of an `AddressSpace`. The null pointer is frame 0. -/
structure AddrSp where
  pageTableRoot : ℕ
  ownsPageTableRoot : Bool

def initUser (build : Build) (as : AddrSp) :
    Kernel (Machine BuddyPmm) (Except MemError Unit × AddrSp) := do
  let res ← (kernelMmuContext build).allocateTable 0
  match res with
  | .error error => return (.error error, as)
  | .ok root => return (.ok (), ⟨root, true⟩)

/-- `DestroyUserAddrSpace` with the destructor of `AddressSpace`. -/
def destroyUserAddrSpace (build : Build) (heap : Heap) (as : AddrSp) :
    Kernel (Machine BuddyPmm) Unit := do
  clearUserMappings (kernelMmuContext build) as.pageTableRoot
  heap.deleteAreas
  (if as.ownsPageTableRoot && as.pageTableRoot != 0 then
      (kernelMmuContext build).freeTable as.pageTableRoot 0
    else pure ())
  heap.deleteAddressSpace

/-- `CreateUserAddrSpace` once the object has been allocated. -/
def setUpUserAddrSpace (build : Build) (heap : Heap) (kernelRoot : ℕ) :
    Kernel (Machine BuddyPmm) (Except MemError AddrSp) := do
  let (res, as) ← initUser build ⟨0, false⟩
  match res with
  | .error error => do
      destroyUserAddrSpace build heap as
      return .error error
  | .ok () => do
      copyKernelSpace as.pageTableRoot kernelRoot
      let made ← heap.newKernelSyncVMemArea
      (if made then do
          let added ← heap.addArea
          match added with
          | .error error => do
              destroyUserAddrSpace build heap as
              return .error error
          | .ok () => return .ok as
        else do
          destroyUserAddrSpace build heap as
          return .error .outOfMemory)

def createUserAddrSpace (build : Build) (heap : Heap) (kernelRoot : ℕ) :
    Kernel (Machine BuddyPmm) (Except MemError AddrSp) := do
  let made ← heap.newAddressSpace
  match made with
  | .error error => return .error error
  | .ok () => setUpUserAddrSpace build heap kernelRoot

def handleFault (currentRoot kernelRoot : ℕ) (faultAddr : BitVec 64) :
    Kernel (Machine BuddyPmm) Bool :=
  if currentRoot = kernelRoot then return false
  else syncMapping currentRoot kernelRoot faultAddr

variable {build : Build} {m m' : Machine BuddyPmm} {kernelRoot : ℕ} {users : Set ℕ} {idx : Fin 512}

/-- The kernel's tree is well formed, and a user root is a table outside of it whose present upper
entries are the kernel's and whose lower half is empty. -/
structure KernelHalf (build : Build) (m : Machine BuddyPmm) (kernelRoot : ℕ) (users : Set ℕ) :
    Prop where
  kernel : WellFormed (kernelLawful build) m kernelRoot
  tables : ∀ user ∈ users, user ∈ m.ctx.pageTables
  apart : ∀ user ∈ users, ∀ path, tableAt m.frames kernelRoot path ≠ some user
  lower : ∀ user ∈ users, ∀ idx, idx.val < 256 → (m.frames user idx).isPresent = false
  upper : ∀ user ∈ users, ∀ idx, 256 ≤ idx.val → (m.frames user idx).isPresent = true →
    m.frames user idx = m.frames kernelRoot idx

namespace KernelHalf

variable (half : KernelHalf build m kernelRoot users)
include half

/-- A present entry of the upper half names the kernel's table. -/
theorem shared {user : ℕ} (member : user ∈ users) (high : 256 ≤ idx.val)
    (present : (m.frames user idx).isPresent = true) :
    (m.frames kernelRoot idx).isPresent = true ∧
      (m.frames user idx).getNextLevelTable = (m.frames kernelRoot idx).getNextLevelTable ∧
      (m.frames user idx).getNextLevelTable ∈ m.ctx.pageTables := by
  have same := half.upper user member idx high present
  rw [same] at present ⊢
  have start : tableAt m.frames kernelRoot [] = some kernelRoot := rfl
  exact ⟨present, rfl, half.kernel.tree.allocated _ _ (tableAt_next start (by decide) present rfl)⟩

/-- Nothing changes for users as long as the kernel's tables and theirs are left
alone. -/
theorem frame (serves : ∃ pool lists live, ServesTables m'.ctx pool lists live)
    (same : ∀ table ∈ m.ctx.pageTables, (table ∈ users ∨
        ∃ path, tableAt m.frames kernelRoot path = some table) →
      table ∈ m'.ctx.pageTables ∧
        (m'.ctx.metaAt table).refCount = (m.ctx.metaAt table).refCount ∧
        m'.frames table = m.frames table) :
    KernelHalf build m' kernelRoot users := by
  have inTree := fun path table reached =>
    same table (half.kernel.tree.allocated path table reached) (Or.inr ⟨path, reached⟩)
  have user := fun table member => same table (half.tables table member) (Or.inl member)
  obtain ⟨kernel, walks⟩ := half.kernel.frame serves inTree
  refine ⟨kernel, fun table member => (user table member).1, ?_, ?_, ?_⟩
  · intro table member path reached
    exact half.apart table member path ((walks path).1.symm.trans reached)
  · intro table member idx low
    rw [(user table member).2.2]
    exact half.lower table member idx low
  · intro table member idx high
    rw [(user table member).2.2, (inTree [] kernelRoot rfl).2.2]
    exact half.upper table member idx high

theorem sameTables (same : SameTables m m') : KernelHalf build m' kernelRoot users := by
  apply half.frame same.serves
  intro table used _
  rw [same.tables]
  exact ⟨used, congrArg PageMeta.refCount (same.metas table used), same.frames table used⟩

theorem keepsTables {α : Type} {call : Kernel (Machine BuddyPmm) α} {value : α}
    (keeps : KeepsTables call) (ran : EStateM.run call m = .ok value m') :
    KernelHalf build m' kernelRoot users :=
  half.sameTables (keeps m value m' half.kernel.valid ran)

theorem subset {fewer : Set ℕ} (less : fewer ⊆ users) : KernelHalf build m kernelRoot fewer :=
  ⟨half.kernel, fun user member => half.tables user (less member),
    fun user member => half.apart user (less member),
    fun user member => half.lower user (less member),
    fun user member => half.upper user (less member)⟩

end KernelHalf

end AlkOS.Mem.Vmm
