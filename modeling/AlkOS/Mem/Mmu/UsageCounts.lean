import AlkOS.Hal.Mmu.Release

/-!
# Usage counts of page tables

A tree of page tables comes from `ReconstructMetadata` or starts as a fresh root. As
long as no walk meets a huge entry, the `ref_count` of each table is the number of its
present entries.
-/

namespace AlkOS.Mem.PageTables

open Kernel Hal Hal.Mmu BuddyPmm DyadicBlocks RadixTree

/-- The calls that change a tree of page tables. -/
inductive Op where
  | map (vaddr paddr : BitVec 64) (flags : PageFlags)
  | unmap (vaddr : BitVec 64)
  | setPageFlags (vaddr : BitVec 64) (flags : PageFlags)

/-- One returning call. New flags include `Present`. -/
inductive Step (build : Build) (root : ℕ) : Op → Machine BuddyPmm → Machine BuddyPmm → Prop where
  | map {m m' : Machine BuddyPmm} {vaddr paddr : BitVec 64} {flags : PageFlags}
      {result : Except MemError Unit} : flags.present = true →
      (Mmu.map (kernelMmuContext build) root vaddr paddr flags).run m = .ok result m' →
      Step build root (.map vaddr paddr flags) m m'
  | unmap {m m' : Machine BuddyPmm} {vaddr : BitVec 64} :
      (Mmu.unmap (kernelMmuContext build) root vaddr).run m = .ok () m' →
      Step build root (.unmap vaddr) m m'
  | setPageFlags {m m' : Machine BuddyPmm} {vaddr : BitVec 64} {flags : PageFlags}
      {result : Except MemError Unit} : flags.present = true →
      (Mmu.setPageFlags root vaddr flags).run m = .ok result m' →
      Step build root (.setPageFlags vaddr flags) m m'

/-- Any number of returning calls, each of them allowed in the state it finds. -/
def Run (build : Build) (root : ℕ) (allowed : Machine BuddyPmm → Op → Prop) :
    Machine BuddyPmm → Machine BuddyPmm → Prop :=
  Relation.ReflTransGen fun m m' => ∃ op, allowed m op ∧ Step build root op m m'

/-- How a tree of page tables comes into being. -/
inductive Start (build : Build) (root : ℕ) : Machine BuddyPmm → Prop where
  | boot {m m' : Machine BuddyPmm} {pool : Set ℕ} {lists : ℕ → List ℕ} {live : Set Block} :
      BootTree m root pool lists live →
      (reconstructMetadata build root).run m = .ok () m' → Start build root m'
  | fresh {m m' : Machine BuddyPmm} {pool : Set ℕ} {lists : ℕ → List ℕ} {live : Set Block}
      {level : ℕ} : ServesTables m.ctx pool lists live →
      (allocateTable build level).run m = .ok (.ok root) m' → Start build root m'

/-- `Map` and `Unmap` meet no huge entry on their walk. -/
def SmallWalk (root : ℕ) (m : Machine BuddyPmm) : Op → Prop
  | .map vaddr _ _ => NoHuge m.frames root vaddr
  | .unmap vaddr => NoHuge m.frames root vaddr
  | .setPageFlags _ _ => True

variable {build : Build} {root : ℕ} {m m' : Machine BuddyPmm} {op : Op}

/-- The tree is well formed at the start. -/
theorem wellFormed_of_start (start : Start build root m) :
    WellFormed (kernelLawful build) m root := by
  cases start with
  | boot boot ran =>
    obtain ⟨after, ran', _, good⟩ := run_reconstructMetadata build boot
    cases ran.symm.trans ran'
    exact good
  | @fresh before _ pool lists live level serves ran =>
    rcases run_allocateTable build serves level with
      ⟨failed, _⟩ | ⟨table, s', lists', ran', serves', _, _, tables, zero, _⟩
    · cases ran.symm.trans failed
    · cases ran.symm.trans ran'
      refine .of_blank ⟨_, _, _, serves'⟩ ?_ zero (Function.update_self ..)
      change root ∈ s'.pageTables
      rw [tables]
      exact Set.mem_insert _ _

/-- Every call whose walk meets no huge entry keeps the tree well formed. -/
theorem wellFormed_of_step (good : WellFormed (kernelLawful build) m root)
    (small : SmallWalk root m op) (step : Step build root op m m') :
    WellFormed (kernelLawful build) m' root := by
  cases step with
  | map present ran => exact (kept_of_map good small present ran).wellFormed
  | unmap ran =>
    rcases run_unmap good small with ⟨ran', _⟩ | ⟨_, _, _, _, ran', unmapped⟩
    · cases ran.symm.trans ran'
      exact good
    · cases ran.symm.trans ran'
      exact unmapped.cut.wellFormed
  | setPageFlags present ran =>
    rcases run_setPageFlags root _ _ m with ⟨_, ran'⟩ | ⟨path, pt, ran', leaf, reached, occupied⟩
    · cases ran.symm.trans ran'
      exact good
    · cases ran.symm.trans ran'
      exact good.reflag leaf reached occupied present

theorem wellFormed_of_run (good : WellFormed (kernelLawful build) m root)
    (run : Run build root (SmallWalk root) m m') : WellFormed (kernelLawful build) m' root := by
  induction run with
  | refl => exact good
  | tail _ step ih =>
    obtain ⟨op, small, step⟩ := step
    exact wellFormed_of_step ih small step

/-- While walks meet no huge entries, the counts are exact, and `Unmap` returns and frees exactly
the tables that lose their last present entry. -/
theorem refCount_eq_presentEntries {start : Machine BuddyPmm} (started : Start build root start)
    (run : Run build root (SmallWalk root) start m) :
    (∀ path table, tableAt m.frames root path = some table →
      (m.ctx.metaAt table).refCount = presentEntries m.frames table) ∧
    ∀ vaddr, NoHuge m.frames root vaddr →
      ∃ m', (Mmu.unmap (kernelMmuContext build) root vaddr).run m = .ok () m' ∧
        root ∈ m'.ctx.pageTables ∧
        ∀ walked table, walked ≠ [] → tableAt m.frames root walked = some table →
          Release (kernelLawful build) m m' root vaddr walked table := by
  have good := wellFormed_of_run (wellFormed_of_start started) run
  refine ⟨good.exact, ?_⟩
  intro vaddr clear
  rcases run_unmap good clear with ⟨ran, _⟩ | ⟨m', path, pt, kept, ran, unmapped⟩
  · refine ⟨m, ran, good.tree.allocated [] root rfl, ?_⟩
    intro walked table _ reached
    have used := good.tree.allocated walked table reached
    refine ⟨⟨fun freed => absurd used freed, fun both => absurd both.2 both.1⟩, ?_, ?_⟩
    · exact fun freed => absurd used freed
    · exact fun freed => absurd used freed
  · refine ⟨m', ran, unmapped.cut.wellFormed.tree.allocated [] root rfl, ?_⟩
    intro walked table notRoot reached
    exact unmapped.release keepsFrames_kernelMmuContext good notRoot reached

theorem start_of_nineFrames (ran : EStateM.run bootNineFrames nineFrames = .ok () m) :
    Start .release 8 m ∧ ∀ vaddr, NoHuge m.frames 8 vaddr := by
  obtain ⟨_, _, _, boot, reconstructed, frames⟩ := boot_of_nineFrames ran
  exact ⟨.boot boot reconstructed, noHuge_of_nineFrames frames⟩

/-- Two pages are mapped and one is unmapped: the level 1 table counts one entry. -/
theorem refCount_nineFrames : ∃ start m table, Start .release 8 start ∧
    Run .release 8 (SmallWalk 8) start m ∧ tableAt m.frames 8 [0, 0, 0] = some table ∧
    (m.ctx.metaAt table).refCount = 1 ∧ presentEntries m.frames table = 1 := by
  have evaluated : outcome (EStateM.run (do
      bootNineFrames
      let _ ← Mmu.map (kernelMmuContext .release) 8 0x1000 0x2000 .data
      let _ ← Mmu.map (kernelMmuContext .release) 8 0x3000 0x4000 .data
      Mmu.unmap (kernelMmuContext .release) 8 0x1000
      let m ← get
      return (tableAt m.frames 8 [0, 0, 0]).map fun table => (m.ctx.metaAt table).refCount)
      nineFrames) = some (some 1) := by decide +kernel
  obtain ⟨after, ran⟩ := eq_ok_of_outcome evaluated
  obtain ⟨_, start, booted, ran⟩ := run_bind_eq_ok ran
  obtain ⟨_, m₁, first, ran⟩ := run_bind_eq_ok ran
  obtain ⟨_, m₂, second, ran⟩ := run_bind_eq_ok ran
  obtain ⟨_, m, removed, ran⟩ := run_bind_eq_ok ran
  obtain ⟨started, clear⟩ := start_of_nineFrames booted
  have kept₁ := kept_of_map (wellFormed_of_start started) (clear _) rfl first
  have clear₁ := fun vaddr => kept₁.noHuge vaddr (clear vaddr)
  have kept₂ := kept_of_map kept₁.wellFormed (clear₁ _) rfl second
  have run : Run .release 8 (SmallWalk 8) start m :=
    .tail (.tail (.single ⟨.map 0x1000 _ _, clear 0x1000, .map rfl first⟩)
      ⟨.map 0x3000 _ _, clear₁ 0x3000, .map rfl second⟩)
      ⟨.unmap 0x1000, kept₂.noHuge 0x1000 (clear₁ 0x1000), .unmap removed⟩
  rw [run_get_bind] at ran
  obtain ⟨table, reached, count⟩ := Option.map_eq_some_iff.mp (EStateM.Result.ok.inj ran).1
  refine ⟨start, m, table, started, run, reached, count, ?_⟩
  rw [← (refCount_eq_presentEntries started run).1 [0, 0, 0] table reached, count]

/-- A root table at 1 GiB, whose first entry leads to frame 1. The second entry of that table maps a
huge page whose base is the root. Frame 2 holds data. -/
def aliased : Machine BuddyPmm where
  frames table idx :=
    if table = 0x40000 ∧ idx = 0 then 0x1007
    else if table = 1 ∧ idx = 1 then 0x40000083
    else if table = 2 ∧ idx = 0 then 1
    else 0
  ctx := {
    pmt := ⟨fun _ => ⟨.allocated, 0, none, none, none, 0, 0, 0⟩, 0x40001, by decide⟩
    freelistTable := fun _ => none }

/-- The tree has the root and one table. -/
theorem tableAt_aliased {path : List (Fin 512)} {table : ℕ}
    (reached : tableAt aliased.frames 0x40000 path = some table) :
    (path = [] ∧ table = 0x40000) ∨ (path = [0] ∧ table = 1) := by
  cases path with
  | nil => exact Or.inl ⟨rfl, (Option.some.inj reached).symm⟩
  | cons first path =>
    by_cases zero : first = 0
    · subst zero
      cases path with
      | nil => exact Or.inr ⟨rfl, (Option.some.inj reached).symm⟩
      | cons second path =>
        have none_child : pageFormat.child 1 (aliased.frames 1 second) = none := by
          by_cases one : second = 1
          · rw [one]
            rfl
          · have blank : aliased.frames 1 second = 0 := by simp [aliased, one]
            rw [blank]
            rfl
        change (pageFormat.child 1 (aliased.frames 1 second)).bind _ = _ at reached
        rw [none_child] at reached
        cases reached
    · have blank : aliased.frames 0x40000 first = 0 := by simp [aliased, zero]
      rw [Mmu.tableAt, (walk_absent (by rw [blank]; rfl) path).1] at reached
      cases reached

/-- The aliased tables can be taken over. -/
theorem bootTree_aliased : BootTree aliased 0x40000 ∅ (fun _ => []) ∅ := by
  refine ⟨.nothing fun _ _ => rfl, ?_, ?_, ⟨?_, ?_⟩, by decide⟩
  · intro page _ buddy
    cases buddy
  · intro page _ table
    cases table
  · intro path other table left right
    rcases tableAt_aliased left with ⟨rfl, rfl⟩ | ⟨rfl, rfl⟩
    · rcases tableAt_aliased right with ⟨rfl, _⟩ | ⟨_, no⟩
      · rfl
      · cases no
    · rcases tableAt_aliased right with ⟨_, no⟩ | ⟨rfl, _⟩
      · cases no
      · rfl
  · intro path table reached
    rcases tableAt_aliased reached with ⟨_, rfl⟩ | ⟨_, rfl⟩
    · decide
    · decide

/-- The walk of `Map` into the huge page goes back to the root and on to frame 1. -/
theorem run_map_aliased (build : Build) (frames : m.frames = aliased.frames)
    (member : 1 ∈ m.ctx.pageTables)
    (paddr : BitVec 64) (flags : PageFlags) :
    (Mmu.map (kernelMmuContext build) 0x40000 0x40007000 paddr flags).run m =
      .ok (.ok ()) ⟨setEntry aliased.frames 1 7
          (PageMapEntry.setFrameAddress paddr (toArchFlags flags)),
        m.ctx.setMeta 1 { m.ctx.metaAt 1 with refCount :=
            ((m.ctx.metaAt 1).refCount + 1) % 2 ^ 16 }⟩ := by
  have step : ∀ level table next idx, (aliased.frames table idx).isPresent = true →
      (aliased.frames table idx).getNextLevelTable = next →
      (nextTable (kernelMmuContext build) level table idx).run m = .ok (.ok next) m := by
    intro level table next idx present leads
    rw [← frames] at present leads
    rw [run_nextTable_of_present _ _ present, leads]
  have walk : (walkAllocating (kernelMmuContext build) 0x40007000 3 0x40000).run m =
      .ok (.ok 1) m := by
    rw [walkAllocating, run_bind (step 3 0x40000 1 _ rfl rfl)]
    change (walkAllocating (kernelMmuContext build) 0x40007000 2 1).run m = _
    rw [walkAllocating, run_bind (step 2 1 0x40000 _ rfl rfl)]
    change (walkAllocating (kernelMmuContext build) 0x40007000 1 0x40000).run m = _
    rw [walkAllocating, run_bind (step 1 0x40000 1 _ rfl rfl)]
    rfl
  have leaf : pmeIdx 1 0x40007000 = 7 := rfl
  have absent : ¬ (m.frames 1 7).isPresent = true := by
    rw [frames]
    decide
  let written : Frames :=
    setEntry aliased.frames 1 7 (PageMapEntry.setFrameAddress paddr (toArchFlags flags))
  have counted : ((kernelMmuContext build).increaseUsage 1).run ⟨written, m.ctx⟩ =
      .ok () ⟨written, _⟩ := run_onPmm (m := ⟨written, m.ctx⟩) (run_increaseUsage member)
  unfold Mmu.map
  rw [run_bind walk]
  unfold mapLeaf
  rw [leaf, run_bind (run_readEntry m), if_neg absent,
    run_bind (run_writeEntry m), frames, run_bind counted]
  rfl

/-- The memory after frame 2 was mapped through the huge entry. -/
def aliasedMapped : Frames := setEntry aliased.frames 1 7
  (PageMapEntry.setFrameAddress 0x2000 (toArchFlags .data))

theorem tableAt_aliasedMapped : tableAt aliasedMapped 0x40000 [0, 7] = some 2 := by decide +kernel

/-- A leaf written through a huge entry makes a data frame part of the tree, with a wrong count. -/
theorem data_reached_as_table : ∃ start m : Machine BuddyPmm, ∃ path table,
    Start .debug 0x40000 start ∧ Run .debug 0x40000 (fun _ _ => True) start m ∧
      tableAt m.frames 0x40000 path = some table ∧
      (m.ctx.metaAt table).refCount ≠ presentEntries m.frames table := by
  obtain ⟨start, ran, marks, good⟩ := run_reconstructMetadata .debug bootTree_aliased
  have frames := marks.frames
  have member : 1 ∈ start.ctx.pageTables := by
    apply good.tree.allocated [0] 1
    rw [frames]
    rfl
  have mapped := run_map_aliased .debug frames member 0x2000 .data
  refine ⟨start, _, [0, 7], 2, .boot bootTree_aliased ran,
    .single ⟨.map 0x40007000 0x2000 _, trivial, .map rfl mapped⟩, tableAt_aliasedMapped, ?_⟩
  have untouched : 2 ∉ tablesFrom aliased.frames 0 0x40000 := by
    intro ⟨path, reached⟩
    rcases tableAt_aliased reached with ⟨_, no⟩ | ⟨_, no⟩
    · cases no
    · cases no
  have count : ((start.ctx.setMeta 1 { start.ctx.metaAt 1 with
      refCount := ((start.ctx.metaAt 1).refCount + 1) % 2 ^ 16 }).metaAt 2).refCount = 0 := by
    rw [metaAt_setMeta, marks.elsewhere 2 untouched]
    rfl
  have occupied : pageFormat.occupied (aliasedMapped 2 0) = true := by decide +kernel
  exact fun same => (usage_pos occupied).ne (count.symm.trans same)

end AlkOS.Mem.PageTables
