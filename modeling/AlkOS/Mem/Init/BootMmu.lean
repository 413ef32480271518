import AlkOS.Mem.Buddy.Correctness
import AlkOS.Mem.Mmu.Contexts

/-!
# The boot loader's page tables

`BootMmuCleaner::ReconstructMetadata` visits the tables that the boot loader left
behind, tags their frames and sets their counts. Afterwards they are a
well-formed tree of the kernel's context.
-/

namespace AlkOS.Mem

open Kernel Hal Hal.Mmu BuddyPmm DyadicBlocks RadixTree

/-- The visitor of `ReconstructMetadata`. -/
def reconstructTable (build : Build) (table level entryCount : ℕ) :
    Kernel (Machine BuddyPmm) Unit :=
  onPmm do
    let frame ← getPageMeta build table
    store frame ((← load frame).initPageTable level)
    let pt ← asPageTable build frame
    store pt { ← load pt with refCount := entryCount % 2 ^ 16 }

def reconstructMetadata (build : Build) (root : ℕ) : Kernel (Machine BuddyPmm) Unit :=
  visitTables (reconstructTable build) 4 root

variable {build : Build} {m m' m'' : Machine BuddyPmm} {root table level depth : ℕ} {S T : Set ℕ}
  {frames : Frames}

/-- `VisitTables` counts the present entries. -/
theorem countPresent_eq : countPresent frames table = presentEntries frames table := by
  have listed : ∀ p : Fin 512 → Bool,
      (Finset.univ.filter fun idx => p idx = true).card =
        ((List.finRange 512).filter p).length := by
    intro p
    rw [Fin.univ_def, Finset.card_def, Finset.filter_val, Multiset.filter_coe, Multiset.coe_card]
    simp only [Bool.decide_eq_true]
  exact (listed _).symm

/-- The frame is tagged and counted as a page table. -/
def Marked (m : Machine BuddyPmm) (table : ℕ) : Prop :=
  (m.ctx.metaAt table).type = .pageTable ∧
    (m.ctx.metaAt table).refCount = presentEntries m.frames table

/-- The tables in `S` were marked, and nothing else was written. -/
structure Marks (m m' : Machine BuddyPmm) (S : Set ℕ) : Prop where
  frames : m'.frames = m.frames
  freelistTable : m'.ctx.freelistTable = m.ctx.freelistTable
  numPageFrames : m'.ctx.pmt.numPageFrames = m.ctx.pmt.numPageFrames
  marked : ∀ table ∈ S, Marked m' table
  kept : ∀ table, Marked m table → Marked m' table
  elsewhere : ∀ table ∉ S, m'.ctx.metaAt table = m.ctx.metaAt table

namespace Marks

theorem refl : Marks m m ∅ where
  frames := rfl
  freelistTable := rfl
  numPageFrames := rfl
  marked _ member := member.elim
  kept _ marked := marked
  elsewhere _ _ := rfl

theorem trans (first : Marks m m' S) (second : Marks m' m'' T) : Marks m m'' (S ∪ T) where
  frames := second.frames.trans first.frames
  freelistTable := second.freelistTable.trans first.freelistTable
  numPageFrames := second.numPageFrames.trans first.numPageFrames
  marked table member := by
    rcases member with before | now
    · exact second.kept table (first.marked table before)
    · exact second.marked table now
  kept table marked := second.kept table (first.kept table marked)
  elsewhere table outside := by
    rw [second.elsewhere table fun inside => outside (Or.inr inside),
      first.elsewhere table fun inside => outside (Or.inl inside)]

/-- A loop whose passes mark their own sets. -/
theorem forM (items : List (Fin 512)) {body : Fin 512 → Kernel (Machine BuddyPmm) PUnit}
    {sets : Fin 512 → Set ℕ}
    (pass : ∀ idx m', m'.frames = m.frames → m'.ctx.pmt.numPageFrames = m.ctx.pmt.numPageFrames →
      ∃ m'', (body idx).run m' = .ok () m'' ∧ Marks m' m'' (sets idx)) :
    ∃ m', (items.forM body).run m = .ok () m' ∧
      Marks m m' { table | ∃ idx ∈ items, table ∈ sets idx } := by
  induction items generalizing m with
  | nil =>
    have none : { table | ∃ idx ∈ ([] : List (Fin 512)), table ∈ sets idx } = ∅ := by simp
    rw [none]
    exact ⟨m, rfl, .refl⟩
  | cons idx items ih =>
    obtain ⟨m', ran, marks⟩ := pass idx m rfl rfl
    obtain ⟨m'', ran', marks'⟩ := ih (m := m') fun idx other frames total =>
      pass idx other (frames.trans marks.frames) (total.trans marks.numPageFrames)
    refine ⟨m'', (run_bind ran).trans ran', ?_⟩
    have both : { table | ∃ at' ∈ idx :: items, table ∈ sets at' } =
        sets idx ∪ { table | ∃ at' ∈ items, table ∈ sets at' } := by
      ext table
      simp
    rw [both]
    exact marks.trans marks'

end Marks

/-- One visited table. -/
theorem run_reconstructTable (level : ℕ)
    (inside : table < m.ctx.pmt.numPageFrames) :
    ∃ m', (reconstructTable build table level (countPresent m.frames table)).run m =
      .ok () m' ∧ Marks m m' {table} := by
  let tagged := m.ctx.setMeta table ((m.ctx.metaAt table).initPageTable level)
  have tag : tagged.metaAt table = (m.ctx.metaAt table).initPageTable level :=
    metaAt_setMeta.trans (if_pos rfl)
  let counted := tagged.setMeta table
    { tagged.metaAt table with refCount := countPresent m.frames table % 2 ^ 16 }
  have count : counted.metaAt table =
      { tagged.metaAt table with refCount := countPresent m.frames table % 2 ^ 16 } :=
    metaAt_setMeta.trans (if_pos rfl)
  have fits : countPresent m.frames table % 2 ^ 16 = presentEntries m.frames table := by
    have bound : presentEntries m.frames table ≤ 512 := usage_le.trans_eq (Fintype.card_fin 512)
    rw [countPresent_eq]
    exact Nat.mod_eq_of_lt (bound.trans_lt (by decide))
  have elsewhere : ∀ other, other ≠ table → counted.metaAt other = m.ctx.metaAt other := by
    intro other apart
    exact (metaAt_setMeta.trans (if_neg apart)).trans (metaAt_setMeta.trans (if_neg apart))
  have marked : Marked ⟨m.frames, counted⟩ table := by
    refine ⟨?_, ?_⟩
    · rw [count, tag]
      rfl
    · rw [count]
      exact fits
  refine ⟨⟨m.frames, counted⟩, ?_, ⟨rfl, rfl, rfl, ?_, ?_, elsewhere⟩⟩
  · apply run_onPmm
    rw [run_bind (run_getPageMeta inside), run_bind run_load,
      run_bind run_store,
      run_bind (run_asPageTable (congrArg PageMeta.type tag))]
    rfl
  · intro other here
    rw [Set.mem_singleton_iff.mp here]
    exact marked
  · intro other before
    by_cases here : other = table
    · rw [here]
      exact marked
    · change (counted.metaAt other).type = _ ∧ (counted.metaAt other).refCount = _
      rw [elsewhere other here]
      exact before

/-- The tables below a table, itself included. -/
def tablesFrom (frames : Frames) (depth table : ℕ) : Set ℕ :=
  { other | ∃ path, RadixTree.tableAt pageFormat frames depth table path = some other }

/-- The tables behind one entry. -/
def tablesBehind (depth : ℕ) (frames : Frames) (table : ℕ) (idx : Fin 512) : Set ℕ :=
  { other | ∃ next, pageFormat.child depth (frames table idx) = some next ∧
    other ∈ tablesFrom frames (depth + 1) next }

theorem tablesBehind_of_child {idx : Fin 512} {next : ℕ}
    (child : pageFormat.child depth (frames table idx) = some next) :
    tablesBehind depth frames table idx = tablesFrom frames (depth + 1) next := by
  ext other
  constructor
  · intro ⟨found, named, member⟩
    rw [Option.some.inj (child.symm.trans named)]
    exact member
  · intro member
    exact ⟨next, child, member⟩

theorem tablesBehind_of_none {idx : Fin 512}
    (child : pageFormat.child depth (frames table idx) = none) :
    tablesBehind depth frames table idx = ∅ := by
  apply Set.eq_empty_of_forall_notMem
  intro other ⟨next, named, _⟩
  rw [child] at named
  cases named

/-- A table and those behind its entries. -/
theorem tablesFrom_eq : tablesFrom frames depth table = {table} ∪
    { other | ∃ idx ∈ List.finRange 512, other ∈ tablesBehind depth frames table idx } := by
  ext other
  constructor
  · intro ⟨path, reached⟩
    cases path with
    | nil => exact Or.inl (Option.some.inj reached).symm
    | cons idx path =>
      obtain ⟨next, child, beyond⟩ := Option.bind_eq_some_iff.mp reached
      exact Or.inr ⟨idx, List.mem_finRange idx, next, child, path, beyond⟩
  · intro member
    rcases member with here | ⟨idx, _, next, child, path, beyond⟩
    · exact ⟨[], congrArg some here.symm⟩
    · exact ⟨idx :: path, Option.bind_eq_some_iff.mpr ⟨next, child, beyond⟩⟩

/-- `VisitTables` returns and marks the tables from its argument down. -/
theorem run_visitTables (levels : depth + (level + 1) = 4)
    (inside : ∀ other ∈ tablesFrom m.frames depth table, other < m.ctx.pmt.numPageFrames) :
    ∃ m', (visitTables (reconstructTable build) (level + 1) table).run m = .ok () m' ∧
      Marks m m' (tablesFrom m.frames depth table) := by
  induction level generalizing m depth table with
  | zero =>
    obtain rfl : depth = 3 := by omega
    obtain ⟨m', ran, marks⟩ := run_reconstructTable 1 (inside table ⟨[], rfl⟩)
    have none : { other | ∃ idx ∈ List.finRange 512,
        other ∈ tablesBehind 3 m.frames table idx } = ∅ := by
      apply Set.eq_empty_of_forall_notMem
      intro other ⟨idx, _, behind⟩
      rw [tablesBehind_of_none child_leaf] at behind
      exact behind
    rw [tablesFrom_eq, none, Set.union_empty, visitTables,
      run_get_bind, run_bind ran]
    exact ⟨m', rfl, marks⟩
  | succ level ih =>
    obtain ⟨m', ran, marks⟩ := run_reconstructTable (level + 2) (inside table ⟨[], rfl⟩)
    have pass : ∀ idx m₁, m₁.frames = m'.frames →
        m₁.ctx.pmt.numPageFrames = m'.ctx.pmt.numPageFrames →
        ∃ m₂, EStateM.run (readEntry table idx >>= fun entry =>
          if entry.isPresent && !entry.isHuge (level + 2) then
            visitTables (reconstructTable build) (level + 1) entry.getNextLevelTable
          else pure ()) m₁ = .ok () m₂ ∧ Marks m₁ m₂ (tablesBehind depth m.frames table idx) := by
      intro idx m₁ frames total
      rw [marks.frames] at frames
      rw [marks.numPageFrames] at total
      rw [run_bind (run_readEntry m₁), frames]
      have height : 4 - depth = level + 2 := by omega
      by_cases leads : ((m.frames table idx).isPresent && !(m.frames table idx).isHuge (level + 2))
      · rw [if_pos leads]
        rw [Bool.and_eq_true, Bool.not_eq_true'] at leads
        have child : pageFormat.child depth (m.frames table idx) = _ :=
          child_eq (by omega) leads.1 (height ▸ leads.2)
        rw [tablesBehind_of_child child, ← frames]
        apply ih (by omega)
        intro other member
        rw [total]
        apply inside
        rw [tablesFrom_eq]
        refine Or.inr ⟨idx, List.mem_finRange idx, ?_⟩
        rw [tablesBehind_of_child child, ← frames]
        exact member
      · rw [if_neg leads, tablesBehind_of_none]
        · exact ⟨m₁, rfl, .refl⟩
        · rw [child_def, if_neg]
          intro ⟨_, present, small⟩
          rw [height] at small
          rw [present, small] at leads
          exact leads rfl
    obtain ⟨m'', ran', marks'⟩ := Marks.forM (List.finRange 512) pass
    rw [tablesFrom_eq, visitTables, run_get_bind,
      run_bind ran]
    exact ⟨m'', ran', marks.trans marks'⟩

variable {pool : Set ℕ} {lists : ℕ → List ℕ} {live : Set Block}

/-- No frame is tagged as a page table. -/
def Untagged (s : BuddyPmm) : Prop :=
  ∀ page < s.pmt.numPageFrames, (s.metaAt page).type ≠ .pageTable

/-- An allocator without tagged tables, and a tree in frames that it does not manage. -/
structure BootTree (m : Machine BuddyPmm) (root : ℕ) (pool : Set ℕ) (lists : ℕ → List ℕ)
    (live : Set Block) : Prop where
  books : Books m.ctx pool lists live
  typed : Typed m.ctx lists ∅
  untagged : Untagged m.ctx
  tree : Tree pageFormat m.frames { page | page < m.ctx.pmt.numPageFrames ∧ page ∉ pool } root
  narrow : m.ctx.pmt.numPageFrames ≤ 2 ^ 40

/-- The frames of the tables are live blocks once they are marked. -/
theorem BootTree.servesTables (boot : BootTree m root pool lists live)
    (marks : Marks m m' (tablesFrom m.frames 0 root)) :
    ServesTables m'.ctx (pool ∪ tablesFrom m.frames 0 root) lists
      (live ∪ Block.singles (tablesFrom m.frames 0 root)) := by
  have outside : ∀ page ∈ tablesFrom m.frames 0 root,
      page < m.ctx.pmt.numPageFrames ∧ page ∉ pool :=
    fun page ⟨path, reached⟩ => boot.tree.allocated path page reached
  have unlisted : ∀ page ∈ tablesFrom m.frames 0 root, page ∉ Freelists.members lists := by
    intro page member ⟨order, listed⟩
    apply (outside page member).2
    rw [← boot.books.tiling.partition.cover]
    exact Block.pages_subset_area (Or.inl (show ⟨page, order⟩ ∈ blocksOf lists from listed))
      (Block.base_mem_pages ⟨page, order⟩)
  have frame : Frame m.ctx m'.ctx (tablesFrom m.frames 0 root) :=
    ⟨marks.numPageFrames, marks.elsewhere⟩
  have books := boot.books.congr marks.freelistTable frame unlisted
  refine ⟨books.adopt ?_ ?_, ?_, ?_, ?_⟩
  · rw [Set.disjoint_left]
    exact fun page member => (outside page member).2
  · intro page member
    rw [marks.numPageFrames]
    exact (outside page member).1
  · intro page bound buddy
    by_cases table : page ∈ tablesFrom m.frames 0 root
    · rw [(marks.marked page table).1] at buddy
      cases buddy
    · rw [marks.elsewhere page table] at buddy
      rw [marks.numPageFrames] at bound
      exact boot.typed page bound buddy
  · intro page ⟨bound, tagged⟩
    by_cases table : page ∈ tablesFrom m.frames 0 root
    · exact Or.inr ⟨rfl, table⟩
    · rw [marks.elsewhere page table] at tagged
      rw [marks.numPageFrames] at bound
      exact absurd tagged (boot.untagged page bound)
  · rw [marks.numPageFrames]
    exact boot.narrow

/-- `ReconstructMetadata` makes the boot loader's tables a well-formed tree. -/
theorem run_reconstructMetadata (build : Build) (boot : BootTree m root pool lists live) :
    ∃ m', (reconstructMetadata build root).run m = .ok () m' ∧
      Marks m m' (tablesFrom m.frames 0 root) ∧ WellFormed (kernelLawful build) m' root := by
  have levels : 0 + (3 + 1) = 4 := rfl
  have inside : ∀ other ∈ tablesFrom m.frames 0 root, other < m.ctx.pmt.numPageFrames :=
    fun other ⟨path, reached⟩ => (boot.tree.allocated path other reached).1
  obtain ⟨m', ran, marks⟩ := run_visitTables levels inside
  have same : ∀ path, tableAt m'.frames root path = tableAt m.frames root path := by
    intro path
    rw [marks.frames]
  refine ⟨m', ran, marks, ⟨_, _, _, boot.servesTables marks⟩, ⟨?_, ?_⟩, ?_⟩
  · intro path other table left right
    exact boot.tree.injective path other table ((same path).symm.trans left)
      ((same other).symm.trans right)
  · intro path table reached
    have member : table ∈ tablesFrom m.frames 0 root := ⟨path, (same path).symm.trans reached⟩
    refine ⟨?_, (marks.marked table member).1⟩
    rw [marks.numPageFrames]
    exact (boot.tree.allocated path table ((same path).symm.trans reached)).1
  · intro path table reached
    exact (marks.marked table ⟨path, (same path).symm.trans reached⟩).2

/-- The buddy allocator tags no page tables. -/
theorem untagged_of_run {x y : Held} (consistent : Consistent x pool lists) (run : Run build x y)
    (before : Untagged x.pmm) : Untagged y.pmm := by
  induction run with
  | refl => exact before
  | @tail middle final past step ih =>
    obtain ⟨between, consistent, _⟩ := consistent.run past
    obtain ⟨op, step⟩ := step
    intro page bound table
    rcases consistent.step_cases step with ⟨order, pfn, after, _, _, taken⟩ | ⟨_, _, rfl⟩ |
      ⟨b, _, after, _, _, _, freed⟩
    · exact ih page (taken.frame.numPageFrames ▸ bound) (taken.type_eq table nofun nofun)
    · exact ih page bound table
    · exact ih page (freed.frame.numPageFrames ▸ bound) (freed.type_eq table nofun nofun)

/-- After `Init` a tree in frames that are not free is ready for `ReconstructMetadata`. -/
theorem bootTree_of_init {s s' : BuddyPmm} {bPmm : BitmapPmm} {pmt : PageMetaTable}
    {pageLimit : ℕ} (ran : (init build bPmm pmt pageLimit).run s = .ok () s')
    (narrow : pmt.totalPages ≤ 2 ^ 40)
    (tree : Tree pageFormat frames { page | page < pmt.totalPages ∧ ¬ bPmm.FrameFree page } root) :
    ∃ lists, BootTree ⟨frames, s'⟩ root (handedOver bPmm pageLimit pmt.totalPages) lists ∅ := by
  obtain ⟨_, history⟩ := init_history ran
  have start : Consistent (booting s pmt (handedOver bPmm pageLimit pmt.totalPages)) _ _ :=
    booting_handedOver_consistent
  obtain ⟨lists, consistent, total⟩ := start.run history.run
  have untagged : Untagged s' := by
    apply untagged_of_run start history.run
    intro page bound table
    rw [booting_metaAt pmt bound] at table
    cases table
  refine ⟨lists, consistent.books, consistent.typed, untagged, tree.mono ?_, total.trans_le narrow⟩
  intro page ⟨inside, taken⟩
  exact ⟨inside.trans_eq total.symm, fun managed => taken managed.2.1⟩

/-- Nine zeroed frames, of which the last one is the kernel's root. -/
def nineFrames : Machine BuddyPmm := ⟨fun _ _ => 0, blankTable 9 (by decide), fun _ => none⟩

/-- A bitmap in which only the kernel's root is taken. -/
def rootTaken : BitmapPmm := ⟨⟨fun pfn => pfn = 8, 9⟩, 8⟩

/-- `BuddyPmm::Init` and `ReconstructMetadata` on the nine frames. -/
def bootNineFrames : Kernel (Machine BuddyPmm) Unit := do
  onPmm (init .release rootTaken nineFrames.ctx.pmt 4096)
  reconstructMetadata .release 8

/-- The boot of the nine frames ends with an empty root and writes to no frame. -/
theorem boot_of_nineFrames (ran : EStateM.run bootNineFrames nineFrames = .ok () m) :
    ∃ before pool lists, BootTree before 8 pool lists ∅ ∧
      (reconstructMetadata .release 8).run before = .ok () m ∧ m.frames = nineFrames.frames := by
  obtain ⟨_, before, booted, reconstructed⟩ := run_bind_eq_ok ran
  obtain ⟨s, initialised, rfl⟩ := run_zoom_eq_ok booted
  have tree : Tree pageFormat nineFrames.frames
      { page | page < nineFrames.ctx.pmt.totalPages ∧ ¬ rootTaken.FrameFree page } 8 :=
    tree_of_blank ⟨by decide, by decide⟩ rfl
  obtain ⟨lists, boot⟩ := bootTree_of_init initialised (by decide) tree
  obtain ⟨_, reconstructed', marks, _⟩ := run_reconstructMetadata .release boot
  cases reconstructed.symm.trans reconstructed'
  exact ⟨_, _, lists, boot, reconstructed, marks.frames⟩

theorem noHuge_of_nineFrames (frames : m.frames = nineFrames.frames) (vaddr : BitVec 64) :
    NoHuge m.frames 8 vaddr := by
  intro front idx rest table _ _
  have blank : m.frames table idx = 0 := by
    rw [frames]
    rfl
  rw [blank]
  exact Bool.and_false _

end AlkOS.Mem
