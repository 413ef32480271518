import AlkOS.Mem.Bitmap.Completeness
import AlkOS.Modules.Memory

/-!
# Ownership of physical frames

After boot both allocators serve requests, each from its own books. `BuddyPmm::Init`
leaves the frames it takes over free in the bitmap, so both allocators hand them out.
-/

namespace AlkOS.MemoryModule

open Kernel Mem DyadicBlocks

/-- Both allocators with the frames and blocks their clients hold. -/
structure Owned where
  bitmapPmm : BitmapPmm
  buddyPmm : BuddyPmm
  bitmapLive : Set ℕ
  buddyLive : Set Block

/-- One returning call of either allocator; only held frames are freed. -/
inductive Step (build : Build) : Owned → Owned → Prop where
  | bitmapAlloc {x : Owned} {pmm : BitmapPmm} {numPages page : ℕ} :
      (BitmapPmm.alloc build numPages).run x.bitmapPmm = .ok (.ok page) pmm →
      Step build x { x with
        bitmapPmm := pmm
        bitmapLive := x.bitmapLive ∪
          Set.Ico (page / kPageSizeBytes) (page / kPageSizeBytes + numPages) }
  | bitmapAllocFails {x : Owned} {pmm : BitmapPmm} {numPages : ℕ} {error : MemError} :
      (BitmapPmm.alloc build numPages).run x.bitmapPmm = .ok (.error error) pmm →
      Step build x { x with bitmapPmm := pmm }
  | bitmapFree {x : Owned} {pmm : BitmapPmm} {pfn numPages : ℕ} :
      Set.Ico pfn (pfn + numPages) ⊆ x.bitmapLive →
      (BitmapPmm.free build (pageFrameAddr pfn) numPages).run x.bitmapPmm = .ok () pmm →
      Step build x { x with
        bitmapPmm := pmm
        bitmapLive := x.bitmapLive \ Set.Ico pfn (pfn + numPages) }
  | buddy {x : Owned} {op : BuddyPmm.Op} {y : BuddyPmm.Held} :
      BuddyPmm.Step build op ⟨x.buddyPmm, x.buddyLive⟩ y →
      Step build x { x with buddyPmm := y.pmm, buddyLive := y.live }

/-- Any interleaving of returning calls. -/
def Run (build : Build) : Owned → Owned → Prop := Relation.ReflTransGen (Step build)

/-- After boot the page metadata table is the only frame owner. -/
def booted (args : BootArguments) (m : MemoryModule) : Owned where
  bitmapPmm := m.bitmapPmm
  buddyPmm := m.buddyPmm
  bitmapLive := Set.Ico (m.pageFramesMetas / kPageSizeBytes)
    (m.pageFramesMetas / kPageSizeBytes + numPagesForPmt args.totalPageFrames)
  buddyLive := ∅

variable {build : Build} {args : BootArguments} {m m' : MemoryModule} {x y : Owned} {pfn : ℕ}

/-- The bitmap allocator is ready and the metadata table covers all frames. -/
def Prepared (args : BootArguments) (m : MemoryModule) : Prop :=
  m.bitmapPmm.Ready args.totalPageFrames ∧ m.buddyPmm.pmt.totalPages = args.totalPageFrames

/-- Freeing a boot table keeps the allocators prepared. -/
theorem preserves_bootFreeTable {table : ℕ} :
    Preserves (Prepared args) (bootFreeTable build table) := by
  have retag : ∀ pfn, Preserves
      (fun pmm : BuddyPmm => pmm.pmt.totalPages = args.totalPageFrames) (do
        let frame ← BuddyPmm.getPageMeta build pfn
        BuddyPmm.store frame ((← BuddyPmm.load frame).initAllocated 0)) :=
    fun pfn => .bind (.bind .get fun _ => .bind .guardAccess fun _ => .pure _) fun _ =>
      .bind (.bind .get fun _ => .pure _) fun _ => .modify fun _ same => same
  refine .bind (.bind .assertTrue fun _ => .pure _) fun pfn => .bind ?_ fun _ => ?_
  · exact .zoom (retag pfn) (fun _ prepared => prepared.2)
      (fun _ _ prepared same => ⟨prepared.1, same⟩)
  · exact .zoom (BitmapPmm.ready_free _ _) (fun _ prepared => prepared.1)
      (fun _ _ prepared ready => ⟨ready, prepared.2⟩)

/-- A returned `PageMetaTable::Init` leaves the module prepared. -/
theorem prepared_of_initPageMetaTable
    (started : m.bitmapPmm = ⟨⟨args.memBitmap, args.totalPageFrames⟩,
      (args.totalPageFrames + 2 ^ 64 - 1) % 2 ^ 64⟩)
    (ran : (initPageMetaTable build args).run m = .ok () m') : Prepared args m' := by
  obtain ⟨result, middle, zoomed, rest⟩ := run_bind_eq_ok ran
  obtain ⟨pmm, allocated, rfl⟩ := run_zoom_eq_ok zoomed
  cases result with
  | error error => exact (of_run_guardAccess rest).elim
  | ok page =>
    cases rest
    have positive : 0 < numPagesForPmt args.totalPageFrames := by
      by_contra none
      have zero : numPagesForPmt args.totalPageFrames = 0 := Nat.eq_zero_of_not_pos none
      rw [zero] at allocated
      cases allocated
    have total : 0 < args.totalPageFrames := by
      by_contra none
      have zero : args.totalPageFrames = 0 := Nat.eq_zero_of_not_pos none
      rw [zero] at positive
      exact absurd positive (by decide)
    have ready : m.bitmapPmm.Ready args.totalPageFrames := by
      rw [started]
      refine ⟨rfl, ?_⟩
      change (args.totalPageFrames + 2 ^ 64 - 1) % 2 ^ 64 < args.totalPageFrames
      omega
    exact ⟨BitmapPmm.ready_alloc _ _ _ _ ready allocated, rfl⟩

/-- What the returned constructor leaves behind. -/
theorem initPhysical_eq_ok (ran : (initPhysical build args).run m = .ok () m') :
    m'.bitmapPmm.Ready args.totalPageFrames ∧
      ∃ (before : BuddyPmm) (pmt : PageMetaTable), pmt.totalPages = args.totalPageFrames ∧
        (BuddyPmm.init build m'.bitmapPmm pmt kInitialBuddyPagesLimit).run before =
          .ok () m'.buddyPmm := by
  obtain ⟨_, first, started, rest⟩ := run_bind_eq_ok ran
  obtain ⟨pmm, inner, rfl⟩ := run_zoom_eq_ok started
  have adopted := BitmapPmm.init_eq_ok inner
  obtain ⟨_, second, laidOut, rest⟩ := run_bind_eq_ok rest
  obtain ⟨_, third, cleaned, rest⟩ := run_bind_eq_ok rest
  obtain ⟨_, fourth, got, rest⟩ := run_bind_eq_ok rest
  cases got
  obtain ⟨buddy, initialised, rfl⟩ := run_zoom_eq_ok rest
  have prepared : Prepared args third := Preserves.forM
    (fun _ => preserves_bootFreeTable) _ _ _ (prepared_of_initPageMetaTable adopted laidOut) cleaned
  exact ⟨prepared.1, third.buddyPmm, third.buddyPmm.pmt, prepared.2, initialised⟩

/-- The buddy allocator's books survive whatever the bitmap allocator does. -/
theorem Run.consistent {pool : Set ℕ} {lists : ℕ → List ℕ}
    (consistent : BuddyPmm.Consistent ⟨x.buddyPmm, x.buddyLive⟩ pool lists)
    (run : Run build x y) :
    ∃ lists', BuddyPmm.Consistent ⟨y.buddyPmm, y.buddyLive⟩ pool lists' := by
  induction run with
  | refl => exact ⟨lists, consistent⟩
  | tail _ step ih =>
    obtain ⟨before, held⟩ := ih
    cases step with
    | bitmapAlloc => exact ⟨before, held⟩
    | bitmapAllocFails => exact ⟨before, held⟩
    | bitmapFree => exact ⟨before, held⟩
    | buddy step =>
      obtain ⟨after, held', _⟩ := held.step step
      exact ⟨after, held'⟩

/-- Marking a free frame leaves fewer free frames. -/
theorem count_marked_lt {pmm : BitmapPmm} {total : ℕ} (free : pmm.FrameFree pfn)
    (inside : pfn < total) :
    Nat.count (pmm.marked pfn 1 BitmapPmm.bitMapAllocated).FrameFree total <
      Nat.count pmm.FrameFree total := by
  rw [Nat.count_eq_card_filter_range, Nat.count_eq_card_filter_range]
  apply Finset.card_lt_card
  rw [Finset.ssubset_iff_of_subset]
  · refine ⟨pfn, Finset.mem_filter.mpr ⟨Finset.mem_range.mpr inside, free⟩, ?_⟩
    intro member
    have kept := BitmapPmm.frameFree_marked_iff.mp (Finset.mem_filter.mp member).2
    exact kept.2 ⟨le_rfl, Nat.lt_succ_self pfn⟩
  · intro other member
    obtain ⟨range, kept⟩ := Finset.mem_filter.mp member
    exact Finset.mem_filter.mpr ⟨range, (BitmapPmm.frameFree_marked_iff.mp kept).1⟩

/-- Enough single-frame requests make the bitmap allocator hand out any free frame. -/
theorem exists_run_bitmapLive {total : ℕ} (count : ℕ) (ready : x.bitmapPmm.Ready total)
    (bound : total * kPageSizeBytes ≤ 2 ^ 64) (free : x.bitmapPmm.FrameFree pfn)
    (inside : pfn < total) (left : Nat.count x.bitmapPmm.FrameFree total ≤ count) :
    ∃ y, Run build x y ∧ pfn ∈ y.bitmapLive ∧ y.buddyLive = x.buddyLive := by
  induction count generalizing x with
  | zero =>
    have fewer := count_marked_lt free inside
    omega
  | succ count ih =>
    have same := ready.1
    rcases BitmapPmm.run_alloc (same ▸ ready.2) Nat.one_pos build with ⟨found, ran, below, run⟩ |
      ⟨_, low, high⟩
    · have freeFound : x.bitmapPmm.FrameFree found := run 0 Nat.one_pos
      have foundInside : found < total := by omega
      have number : pageFrameAddr found / kPageSizeBytes = found := by
        unfold pageFrameAddr
        unfold kPageSizeBytes at bound ⊢
        omega
      have step := Step.bitmapAlloc ran
      rw [number] at step
      by_cases same : found = pfn
      · exact ⟨_, .single step, Or.inr ⟨same.le, by omega⟩, rfl⟩
      · have fewer := count_marked_lt freeFound foundInside
        have still : (x.bitmapPmm.marked found 1 BitmapPmm.bitMapAllocated).FrameFree pfn :=
          BitmapPmm.frameFree_marked_iff.mpr ⟨free, by omega⟩
        obtain ⟨y, rest, reached, kept⟩ := ih
          (x := { x with
            bitmapPmm := { x.bitmapPmm.marked found 1 BitmapPmm.bitMapAllocated with
              lastAllocIdx := found }
            bitmapLive := x.bitmapLive ∪ Set.Ico found (found + 1) })
          ⟨ready.1, foundInside⟩ still
          (Nat.lt_succ_iff.mp (fewer.trans_le left))
        exact ⟨y, .head step rest, reached, kept⟩
    · exfalso
      have single : x.bitmapPmm.FreeRun pfn 1 := by
        intro i below
        rw [Nat.lt_one_iff.mp below]
        exact free
      by_cases lower : pfn + 1 ≤ x.bitmapPmm.lastAllocIdx
      · exact low pfn lower single
      · have start := BitmapPmm.secondSearchStart_le x.bitmapPmm.lastAllocIdx 1
        exact high pfn (by omega) (by omega) single

/-- Some frame is handed over as soon as one is free in the bitmap. -/
theorem exists_handedOver {bPmm : BitmapPmm} {pageLimit total : ℕ} (positive : 0 < pageLimit)
    (free : bPmm.FrameFree pfn) (inside : pfn < total) :
    ∃ page, page ∈ BuddyPmm.handedOver bPmm pageLimit total := by
  have exists_free : ∃ page, bPmm.FrameFree page := ⟨pfn, free⟩
  have first := Nat.find_min' exists_free free
  refine ⟨Nat.find exists_free, first.trans_lt inside, Nat.find_spec exists_free, ?_⟩
  have none : Nat.count bPmm.FrameFree (Nat.find exists_free) = 0 := by
    rw [Nat.count_iff_forall_not]
    exact fun other below => Nat.find_min exists_free below
  rwa [none]

/-- No frame is owned through both allocators exactly when `BuddyPmm::Init` finds none free. -/
theorem owned_once_iff (ran : (initPhysical build args).run m = .ok () m') :
    (∀ y, Run build (booted args m') y → Disjoint y.bitmapLive (Block.area y.buddyLive)) ↔
      ∀ pfn < args.totalPageFrames, ¬ m'.bitmapPmm.FrameFree pfn := by
  obtain ⟨ready, before, pmt, total, initialised⟩ := initPhysical_eq_ok ran
  obtain ⟨lists, consistent, _⟩ := BuddyPmm.consistent_of_init initialised .refl
  constructor
  · intro once pfn inside free
    obtain ⟨page, handed⟩ := exists_handedOver (by decide : 0 < kInitialBuddyPagesLimit) free
      (total ▸ inside)
    -- The buddy allocator can serve a single page, and that page is free in the bitmap.
    rcases consistent.books.alloc consistent.typed build (Nat.zero_le _) with
      ⟨after, lists', taken, allocated, spec⟩ | ⟨_, small⟩
    · have inPool : taken ∈ BuddyPmm.handedOver m'.bitmapPmm kInitialBuddyPagesLimit
          pmt.totalPages := by
        rw [← consistent.books.tiling.partition.cover]
        exact Block.area_mono Set.subset_union_left (spec.within (Block.base_mem_pages _))
      have step := Step.buddy (x := booted args m') (BuddyPmm.Step.alloc allocated)
      rw [pageFrameAddr_number (spec.books.inside taken inPool)] at step
      obtain ⟨y, rest, both, kept⟩ := exists_run_bitmapLive _
        (x := { booted args m' with buddyPmm := after, buddyLive := insert ⟨taken, 0⟩ ∅ })
        ready args.addressable inPool.2.1 (total ▸ inPool.1) le_rfl
      refine Set.disjoint_left.mp (once y (.head step rest)) both ?_
      rw [kept]
      exact Block.mem_area.mpr ⟨⟨taken, 0⟩, Set.mem_insert _ _, Block.base_mem_pages _⟩
    · rw [← consistent.books.tiling.partition.cover, Set.union_empty] at handed
      obtain ⟨b, member, _⟩ := Block.mem_area.mp handed
      exact Nat.not_lt_zero _ (small b member)
  · intro full y run
    obtain ⟨lists', held⟩ := Run.consistent (x := booted args m') consistent run
    have empty : Block.area y.buddyLive = ∅ := by
      apply Set.eq_empty_of_forall_notMem
      intro page inside
      have handed := held.repInv.cover ▸ Block.area_mono Set.subset_union_right inside
      exact full page (total ▸ handed.1) handed.2.1
    rw [empty]
    exact Set.disjoint_empty _

/-- The module before its constructor ran. -/
def blankModule : MemoryModule := ⟨BuddyPmm.clearBitmap 0, BuddyPmm.blank, 0⟩

/-- A machine with one free frame, which the page metadata table takes. -/
def oneFrame : BootArguments := ⟨1, fun _ => BitmapPmm.bitMapFree, [], by decide⟩

/-- With a single frame nothing is left for the buddy allocator. -/
theorem owned_once_oneFrame :
    ∃ m', (initPhysical .debug oneFrame).run blankModule = .ok () m' ∧
      ∀ y, Run .debug (booted oneFrame m') y →
        Disjoint y.bitmapLive (Block.area y.buddyLive) := by
  have evaluated : outcome (EStateM.run (do
      initPhysical .debug oneFrame
      return decide ((← get).bitmapPmm.FrameFree 0)) blankModule) = some false := by decide +kernel
  obtain ⟨_, ran⟩ := eq_ok_of_outcome evaluated
  obtain ⟨_, m', ran, rest⟩ := run_bind_eq_ok ran
  rw [run_get_bind] at rest
  have taken : ¬ m'.bitmapPmm.FrameFree 0 := of_decide_eq_false (EStateM.Result.ok.inj rest).1
  refine ⟨m', ran, (owned_once_iff ran).mpr fun pfn inside => ?_⟩
  rw [Nat.lt_one_iff.mp inside]
  exact taken

/-- A machine with four frames, all of them free. -/
def fourFrames : BootArguments :=
  ⟨4, fun _ => BitmapPmm.bitMapFree, [], BuddyPmm.blank.pmt.addressable⟩

/-- The buddy allocator hands out frames 0 and 1, then the bitmap allocator frame 1. -/
theorem frame_owned_twice :
    ∃ m' y, (initPhysical .debug fourFrames).run blankModule = .ok () m' ∧
      Run .debug (booted fourFrames m') y ∧ 1 ∈ y.bitmapLive ∧ 1 ∈ Block.area y.buddyLive := by
  have evaluated : outcome (EStateM.run (do
      initPhysical .debug fourFrames
      let pair ← onBuddy (BuddyPmm.alloc .debug 1)
      let single ← onBitmap (BitmapPmm.alloc .debug 1)
      return (pair, single)) blankModule) =
      some (.ok (pageFrameAddr 0), .ok (pageFrameAddr 1)) := by decide +kernel
  obtain ⟨final, ran⟩ := eq_ok_of_outcome evaluated
  obtain ⟨_, m', booted', rest⟩ := run_bind_eq_ok ran
  obtain ⟨pair, m₁, zoomed, rest⟩ := run_bind_eq_ok rest
  obtain ⟨single, m₂, zoomed', rest⟩ := run_bind_eq_ok rest
  cases rest
  obtain ⟨buddy, first, rfl⟩ := run_zoom_eq_ok zoomed
  obtain ⟨bitmap, second, rfl⟩ := run_zoom_eq_ok zoomed'
  refine ⟨m', _, booted', .tail (.single (.buddy (.alloc first))) (.bitmapAlloc second), ?_, ?_⟩
  · exact Or.inr (by decide)
  · exact Block.mem_area.mpr ⟨⟨0, 1⟩, Or.inl (by decide), by decide, by decide⟩

end AlkOS.MemoryModule
