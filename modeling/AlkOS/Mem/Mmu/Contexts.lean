import AlkOS.Hal.Mmu.Unmap
import AlkOS.Mem.Buddy.Invariant

/-!
# The kernel's MMU context

`KernelMmuContext` takes page tables from the buddy allocator and counts their entries
in the `ref_count` of their metadata. It is a lawful context: the frames in use as
tables are the frames tagged `PageTable`.
-/

namespace AlkOS.Mem

open Kernel Hal Hal.Mmu BuddyPmm DyadicBlocks Function

namespace BuddyPmm

def asPageTable (build : Build) (page : ℕ) : Kernel BuddyPmm ℕ := do
  Kernel.assertTrue build ((← load page).type = .pageTable) "meta.type == PageMetaType::PageTable"
  return page

/-- `InitPageTable` on a frame's metadata. -/
def tagPageTable (build : Build) (table level : ℕ) : Kernel BuddyPmm Unit := do
  let frame ← getPageMeta build table
  store frame ((← load frame).initPageTable level)

def freeTable (build : Build) (table : ℕ) : Kernel BuddyPmm Unit := do
  let frame ← getPageMeta build table
  store frame ((← load frame).initAllocated 0)
  free build (pageFrameAddr table)

/-- `KernelMmuContext::IncreaseUsage` on the 16-bit count. -/
def increaseUsage (build : Build) (table : ℕ) : Kernel BuddyPmm Unit := do
  let frame ← getPageMeta build table
  let pt ← asPageTable build frame
  store pt { ← load pt with refCount := ((← load pt).refCount + 1) % 2 ^ 16 }

def decreaseUsage (build : Build) (table : ℕ) : Kernel BuddyPmm Bool := do
  let frame ← getPageMeta build table
  let pt ← asPageTable build frame
  let current ← load pt
  (if current.refCount > 0 then store pt { current with refCount := current.refCount - 1 }
    else pure ())
  return decide ((← load pt).refCount = 0)

end BuddyPmm

/-- Run a computation of the buddy allocator. -/
def onPmm {α : Type} (run : Kernel BuddyPmm α) : Kernel (Machine BuddyPmm) α :=
  Kernel.zoom Machine.ctx (fun m pmm => { m with ctx := pmm }) run

/-- The `memset` of `AllocateTable`. -/
def zeroFrame (table : ℕ) : Kernel (Machine BuddyPmm) Unit :=
  modify fun m => { m with frames := update m.frames table fun _ => 0 }

def allocateTable (build : Build) (level : ℕ) :
    Kernel (Machine BuddyPmm) (Except MemError ℕ) := do
  let res ← onPmm (alloc build 0)
  match res with
  | .error error => return .error error
  | .ok ptr => do
      let table := ptr / kPageSizeBytes
      zeroFrame table
      onPmm (tagPageTable build table level)
      return .ok table

def kernelMmuContext (build : Build) : MmuContext BuddyPmm where
  allocateTable := allocateTable build
  freeTable table _ := onPmm (BuddyPmm.freeTable build table)
  increaseUsage table := onPmm (BuddyPmm.increaseUsage build table)
  decreaseUsage table := onPmm (BuddyPmm.decreaseUsage build table)

namespace BuddyPmm

open Freelists

variable {build : Build} {s s' : BuddyPmm} {pool : Set ℕ} {lists : ℕ → List ℕ}
  {live : Set Block} {table other level : ℕ}

/-- The frames tagged as page tables. -/
def pageTables (s : BuddyPmm) : Set ℕ :=
  { table | table < s.pmt.numPageFrames ∧ (s.metaAt table).type = .pageTable }

/-- The books are in order, page tables are live blocks of order 0, and addresses have 52 bits. -/
structure ServesTables (s : BuddyPmm) (pool : Set ℕ) (lists : ℕ → List ℕ)
    (live : Set Block) : Prop where
  books : Books s pool lists live
  typed : Typed s lists ∅
  tables : ∀ table ∈ s.pageTables, ⟨table, 0⟩ ∈ live
  narrow : s.pmt.numPageFrames ≤ 2 ^ 40

theorem run_asPageTable (tagged : (s.metaAt table).type = .pageTable) :
    (asPageTable build table).run s = .ok table s := by
  unfold asPageTable
  rw [run_bind run_load, run_bind (run_assertTrue tagged)]
  rfl

theorem run_tagPageTable (inside : table < s.pmt.numPageFrames) :
    (tagPageTable build table level).run s =
      .ok () (s.setMeta table ((s.metaAt table).initPageTable level)) := by
  unfold tagPageTable
  rw [run_bind (run_getPageMeta inside)]
  rfl

theorem run_increaseUsage (member : table ∈ s.pageTables) :
    (increaseUsage build table).run s = .ok () (s.setMeta table
      { s.metaAt table with refCount := ((s.metaAt table).refCount + 1) % 2 ^ 16 }) := by
  unfold increaseUsage
  rw [run_bind (run_getPageMeta member.1),
    run_bind (run_asPageTable member.2)]
  rfl

/-- One entry less is reported. -/
theorem run_decreaseUsage (member : table ∈ s.pageTables)
    (positive : 0 < (s.metaAt table).refCount) :
    (decreaseUsage build table).run s =
      .ok (decide ((s.metaAt table).refCount - 1 = 0)) (s.setMeta table
        { s.metaAt table with refCount := (s.metaAt table).refCount - 1 }) := by
  unfold decreaseUsage
  rw [run_bind (run_getPageMeta member.1),
    run_bind (run_asPageTable member.2), run_bind run_load,
    if_pos positive, run_bind run_store, run_bind run_load,
    metaAt_setMeta, if_pos rfl]
  rfl

namespace ServesTables

section

variable (serves : ServesTables s pool lists live)
include serves

/-- Page tables are on no freelist. -/
theorem unlisted (member : table ∈ s.pageTables) : table ∉ members lists :=
  serves.books.live_fresh (serves.tables table member) (Block.base_mem_pages ⟨table, 0⟩)

/-- The metadata of a page table is free to change as long as it stays one. -/
theorem setMeta (member : table ∈ s.pageTables) (value : PageMeta)
    (tagged : value.type = .pageTable) :
    ServesTables (s.setMeta table value) pool lists live ∧
      (s.setMeta table value).pageTables = s.pageTables := by
  have same : (s.setMeta table value).pageTables = s.pageTables := by
    ext other
    by_cases here : other = table
    · subst here
      simp only [pageTables, Set.mem_ofPred_eq, numPageFrames_setMeta, metaAt_setMeta, if_pos,
        tagged, member.2]
    · simp only [pageTables, Set.mem_ofPred_eq, numPageFrames_setMeta, metaAt_setMeta, if_neg here]
  refine ⟨⟨?_, serves.typed.setMeta (tagged ▸ nofun), same ▸ serves.tables, serves.narrow⟩, same⟩
  exact serves.books.congr rfl Frame.setMeta fun page here => here ▸ serves.unlisted member

/-- A free frame of order 0 becomes a new page table. -/
theorem taken {lists' : ℕ → List ℕ} (taken : Taken s s' pool lists lists' live ⟨table, 0⟩)
    {value : PageMeta} (tagged : value.type = .pageTable) :
    ServesTables (s'.setMeta table value) pool lists' (insert ⟨table, 0⟩ live) ∧
      table ∉ s.pageTables ∧ table < s.pmt.numPageFrames ∧
      (s'.setMeta table value).pageTables = insert table s.pageTables ∧
      ∀ other ∈ s.pageTables, (s'.setMeta table value).metaAt other = s.metaAt other := by
  have total := taken.frame.numPageFrames
  have inside : table < s.pmt.numPageFrames := total ▸ taken.inside
  have new : table ∉ s.pageTables := by
    intro member
    exact serves.books.tiling.live_not_in_area (serves.tables table member)
      (Block.base_mem_pages ⟨table, 0⟩) (taken.within (Block.base_mem_pages ⟨table, 0⟩))
  have kept : ∀ other ∈ s.pageTables, (s'.setMeta table value).metaAt other = s.metaAt other := by
    intro other member
    have apart : other ≠ table := fun same => new (same ▸ member)
    rw [metaAt_setMeta, if_neg apart]
    exact taken.metaAt_eq serves.books (serves.tables other member)
  have fresh : table ∉ members lists' :=
    taken.books.live_fresh (Set.mem_insert _ _) (Block.base_mem_pages ⟨table, 0⟩)
  have tables : (s'.setMeta table value).pageTables = insert table s.pageTables := by
    ext other
    constructor
    · intro ⟨bound, type⟩
      by_cases here : other = table
      · exact Or.inl here
      · rw [metaAt_setMeta, if_neg here] at type
        exact Or.inr ⟨total ▸ bound, taken.type_eq type nofun nofun⟩
    · intro member
      rcases member with here | before
      · rw [here]
        exact ⟨total ▸ inside, by rw [metaAt_setMeta, if_pos rfl, tagged]⟩
      · exact ⟨total ▸ before.1, by rw [kept other before]; exact before.2⟩
  refine ⟨⟨?_, taken.typed.setMeta (tagged ▸ nofun), ?_, ?_⟩, new, inside, tables, kept⟩
  · exact taken.books.congr rfl Frame.setMeta fun page here => here ▸ fresh
  · rw [tables]
    intro other member
    rcases member with here | before
    · rw [here]
      exact Set.mem_insert _ _
    · exact Set.mem_insert_of_mem _ (serves.tables other before)
  · change s'.pmt.numPageFrames ≤ 2 ^ 40
    rw [total]
    exact serves.narrow

end

/-- `FreeTable` returns a page table to the free side and keeps the others. -/
theorem freeTable (build : Build) (serves : ServesTables s pool lists live)
    (member : table ∈ s.pageTables) :
    ∃ s' lists', (BuddyPmm.freeTable build table).run s = .ok () s' ∧
      ServesTables s' pool lists' (live \ {⟨table, 0⟩}) ∧
      s'.pageTables = s.pageTables \ {table} ∧
      ∀ other ∈ s'.pageTables, s'.metaAt other = s.metaAt other := by
  let tagged := s.setMeta table ((s.metaAt table).initAllocated 0)
  have value : tagged.metaAt table = (s.metaAt table).initAllocated 0 :=
    metaAt_setMeta.trans (if_pos rfl)
  have elsewhere : ∀ other, other ≠ table → tagged.metaAt other = s.metaAt other :=
    fun other apart => metaAt_setMeta.trans (if_neg apart)
  have books : Books tagged pool lists live :=
    serves.books.congr rfl Frame.setMeta fun page here => here ▸ serves.unlisted member
  have typed : Typed tagged lists ∅ := serves.typed.setMeta nofun
  have type : (tagged.metaAt (⟨table, 0⟩ : Block).base).type = .allocated := by rw [value]; rfl
  have order : (tagged.metaAt (⟨table, 0⟩ : Block).base).order = 0 := by rw [value]; rfl
  obtain ⟨s', lists', ran, freed⟩ :=
    books.free (serves.tables table member) order build typed type
  have total : s'.pmt.numPageFrames = s.pmt.numPageFrames := freed.frame.numPageFrames
  have kept : ∀ other ∈ s.pageTables, other ≠ table → s'.metaAt other = s.metaAt other := by
    intro other inUse apart
    rw [← elsewhere other apart]
    exact freed.metaAt_eq (c := ⟨other, 0⟩) books (serves.tables table member)
      ⟨serves.tables other inUse, fun same => apart (congrArg Block.base same)⟩
  have tables : s'.pageTables = s.pageTables \ {table} := by
    ext other
    constructor
    · intro ⟨bound, isTable⟩
      have before := freed.type_eq isTable nofun nofun
      have apart : other ≠ table := by
        intro same
        rw [same, value] at before
        cases before
      rw [elsewhere other apart] at before
      exact ⟨⟨total ▸ bound, before⟩, apart⟩
    · intro ⟨inUse, apart⟩
      exact ⟨total.symm ▸ inUse.1, by rw [kept other inUse apart]; exact inUse.2⟩
  refine ⟨s', lists', ?_, ⟨freed.books, freed.typed, ?_, total ▸ serves.narrow⟩, tables, ?_⟩
  · unfold BuddyPmm.freeTable
    rw [run_bind (run_getPageMeta member.1)]
    exact ran
  · rw [tables]
    intro other remaining
    refine ⟨serves.tables other remaining.1, ?_⟩
    intro same
    exact remaining.2 (congrArg Block.base same)
  · rw [tables]
    intro other remaining
    exact kept other remaining.1 remaining.2

end ServesTables

end BuddyPmm

section Lawful

variable {build : Build} {m : Machine BuddyPmm} {table level : ℕ}

theorem run_onPmm {α : Type} {run : Kernel BuddyPmm α} {value : α} {after : BuddyPmm}
    (returned : EStateM.run run m.ctx = .ok value after) :
    (onPmm run).run m = .ok value ⟨m.frames, after⟩ :=
  run_zoom_of_ok returned

theorem run_zeroFrame : (zeroFrame table).run m =
    .ok () { m with frames := update m.frames table fun _ => 0 } := rfl

/-- `AllocateTable` changes nothing, or zeroes and tags a free frame. -/
theorem run_allocateTable {pool : Set ℕ} {lists : ℕ → List ℕ} {live : Set Block} (build : Build)
    (serves : ServesTables m.ctx pool lists live) (level : ℕ) :
    ((allocateTable build level).run m = .ok (.error .outOfMemory) m ∧
        blocksOf lists = ∅) ∨
      ∃ table s' lists',
        (allocateTable build level).run m =
          .ok (.ok table) ⟨update m.frames table fun _ => 0, s'⟩ ∧
        ServesTables s' pool lists' (insert ⟨table, 0⟩ live) ∧ table ∉ m.ctx.pageTables ∧
        table < 2 ^ 40 ∧ s'.pageTables = insert table m.ctx.pageTables ∧
        (s'.metaAt table).refCount = 0 ∧
        ∀ other ∈ m.ctx.pageTables, s'.metaAt other = m.ctx.metaAt other := by
  have zeroOrder : 0 ≤ kMaxOrder := Nat.zero_le _
  unfold allocateTable
  rcases serves.books.alloc serves.typed build zeroOrder with
    ⟨s', lists', page, ran, taken⟩ | ⟨ran, none⟩
  · have tag : ((s'.metaAt page).initPageTable level).type = .pageTable := rfl
    obtain ⟨serves', new, inside, tables, kept⟩ := serves.taken taken tag
    have zero : ((s'.setMeta page ((s'.metaAt page).initPageTable level)).metaAt page).refCount =
        0 := congrArg PageMeta.refCount (metaAt_setMeta.trans (if_pos rfl))
    refine Or.inr ⟨page, s'.setMeta page ((s'.metaAt page).initPageTable level), lists', ?_,
      serves', new, inside.trans_le serves.narrow, tables, zero, kept⟩
    rw [run_bind (run_onPmm ran)]
    simp only [pageFrameAddr_number inside]
    rw [run_bind run_zeroFrame,
      run_bind (run_onPmm (run_tagPageTable taken.inside))]
    rfl
  · rw [run_bind (run_onPmm ran)]
    exact Or.inl ⟨rfl, Set.eq_empty_of_forall_notMem fun b member =>
      Nat.not_lt_zero b.order (none b member)⟩

/-- The counts after one of them was written. -/
theorem refCount_setMeta {s : BuddyPmm} {count : ℕ} :
    (fun other =>
      ((s.setMeta table { s.metaAt table with refCount := count }).metaAt other).refCount)
      = update (fun other => (s.metaAt other).refCount) table count := by
  funext other
  by_cases here : other = table
  · rw [here, update_self, metaAt_setMeta, if_pos rfl]
  · rw [update_of_ne here, metaAt_setMeta, if_neg here]

/-- The kernel's context is lawful. -/
def kernelLawful (build : Build) : Lawful (kernelMmuContext build) where
  valid s := ∃ pool lists live, ServesTables s pool lists live
  tables := pageTables
  usage s table := (s.metaAt table).refCount
  allocateTable level m := by
    intro ⟨pool, lists, live, serves⟩
    rcases run_allocateTable build serves level with
      ⟨ran, _⟩ | ⟨table, s', lists', ran, serves', new, narrow, tables, zero, kept⟩
    · exact ⟨_, m, ran, ⟨pool, lists, live, serves⟩, fun _ _ => ⟨rfl, rfl⟩, Or.inl ⟨_, rfl, rfl⟩⟩
    · refine ⟨_, _, ran, ⟨_, _, _, serves'⟩, ?_,
        Or.inr ⟨table, rfl, new, narrow, tables, zero, update_self ..⟩⟩
      intro other inUse
      have apart : other ≠ table := fun same => new (same ▸ inUse)
      exact ⟨congrArg PageMeta.refCount (kept other inUse), update_of_ne apart ..⟩
  increaseUsage table m := by
    intro ⟨pool, lists, live, serves⟩ member room
    have ran : (onPmm (BuddyPmm.increaseUsage build table)).run m = _ :=
      run_onPmm (run_increaseUsage member)
    rw [Nat.mod_eq_of_lt (by omega)] at ran
    obtain ⟨serves', tables⟩ := serves.setMeta member { m.ctx.metaAt table with
      refCount := (m.ctx.metaAt table).refCount + 1 } member.2
    exact ⟨_, ran, ⟨_, _, _, serves'⟩, tables, refCount_setMeta⟩
  decreaseUsage table m := by
    intro ⟨pool, lists, live, serves⟩ member positive
    obtain ⟨serves', tables⟩ := serves.setMeta member { m.ctx.metaAt table with
      refCount := (m.ctx.metaAt table).refCount - 1 } member.2
    exact ⟨_, run_onPmm (run_decreaseUsage member positive), ⟨_, _, _, serves'⟩, tables,
      refCount_setMeta⟩
  freeTable table level m := by
    intro ⟨pool, lists, live, serves⟩ member
    obtain ⟨s', lists', ran, serves', tables, kept⟩ := serves.freeTable build member
    refine ⟨⟨m.frames, s'⟩, run_onPmm ran, ⟨_, _, _, serves'⟩, tables, ?_⟩
    intro other remaining
    exact ⟨congrArg PageMeta.refCount (kept other remaining), rfl⟩

/-- `FreeTable` does not write to the freed frame. -/
theorem keepsFrames_kernelMmuContext : KeepsFrames (kernelMmuContext build) := by
  intro table level m m' ran
  obtain ⟨inner, _, rfl⟩ := run_zoom_eq_ok ran
  rfl

end Lawful

end AlkOS.Mem
