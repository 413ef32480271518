import AlkOS.Mem.Buddy.Runs

/-!
# Correctness of the buddy allocator

The statements speak about the freelists as the program follows them and about
the set of free pages they cover, for every state reached from `Init`.
-/

namespace AlkOS.Mem.BuddyPmm

open Kernel DyadicBlocks IntrusiveList

variable {build : Build} {s s' : BuddyPmm} {x : Held} {pool : Set ℕ} {lists : ℕ → List ℕ}
  {live : Set Block} {b : Block} {bPmm : BitmapPmm} {pmt : PageMetaTable} {pageLimit order : ℕ}

/-- The pages of the blocks on the freelists. -/
def freePages (s : BuddyPmm) : Set ℕ := Block.area (freeBlocks s)

/-- Free and live blocks divide the pages `handed`, and freelists and tags describe the free ones.
-/
structure RepInv (s : BuddyPmm) (handed : Set ℕ) (live : Set Block) : Prop where
  disjoint : ∀ b ∈ freeBlocks s ∪ live, ∀ c ∈ freeBlocks s ∪ live, b ≠ c →
    Disjoint b.pages c.pages
  apart : Disjoint (freeBlocks s) live
  cover : Block.area (freeBlocks s ∪ live) = handed
  aligned : ∀ b ∈ freeBlocks s ∪ live, 2 ^ b.order ∣ b.base
  below : ∀ b ∈ freeBlocks s ∪ live, b.base + 2 ^ b.order ≤ s.pmt.totalPages
  linked : ∀ order ≤ kMaxOrder, ∃ nodes,
    Linked s.next s.prev none (s.freelistTable order) nodes ∧
      ∀ page ∈ nodes, (s.metaAt page).order = order
  tagged : ∀ page < s.pmt.totalPages,
    (s.metaAt page).type = .buddy ↔ ∃ order, (⟨page, order⟩ : Block) ∈ freeBlocks s
  coalesced : ∀ b ∈ freeBlocks s, b.order < kMaxOrder →
    (⟨getBuddyPfn b.base b.order, b.order⟩ : Block) ∉ freeBlocks s

/-- Consistent books give the representation invariant. -/
theorem Consistent.repInv (consistent : Consistent x pool lists) : RepInv x.pmm pool x.live := by
  have same := consistent.books.freelists.freeBlocks_eq
  have tiling := same ▸ consistent.books.tiling
  refine ⟨?_, tiling.apart, tiling.partition.cover, tiling.partition.aligned, ?_, ?_, ?_, ?_⟩
  · intro b inB c inC apart
    rw [Set.disjoint_left]
    intro page hereB hereC
    exact apart (tiling.partition.owner_unique b inB c inC page hereB hereC)
  · intro b member
    -- The last page of the block belongs to the pool.
    have last : b.base + 2 ^ b.order - 1 ∈ b.pages := by
      have positive := Nat.two_pow_pos b.order
      rw [Block.mem_pages]
      omega
    have inside := consistent.books.inside _ (tiling.partition.cover ▸
      Block.pages_subset_area member last)
    unfold PageMetaTable.totalPages
    omega
  · intro order bound
    exact ⟨lists order, consistent.books.freelists.linked order bound, fun page listed =>
      (consistent.books.freelists.tagged order page listed).2⟩
  · intro page bound
    rw [same]
    constructor
    · intro tagged
      exact (consistent.typed page bound tagged).resolve_left id
    · intro ⟨order, listed⟩
      exact (consistent.books.freelists.tagged order page listed).1
  · intro b member room
    rw [Books.getBuddyPfn_base]
    exact tiling.coalesced b member room

/-- Along every run from `Init` the invariant holds, and every further call returns. -/
theorem repInv_of_run (ran : (init build bPmm pmt pageLimit).run s = .ok () s')
    (run : Run build ⟨s', ∅⟩ x) :
    RepInv x.pmm (handedOver bPmm pageLimit pmt.totalPages) x.live ∧
      x.pmm.pmt.totalPages = pmt.totalPages ∧
      (∀ order, ∃ result after, (alloc build order).run x.pmm = .ok result after) ∧
      ∀ b ∈ x.live, ∃ after,
        (free build (pageFrameAddr b.base)).run x.pmm = .ok () after := by
  obtain ⟨lists, consistent, total⟩ := consistent_of_init ran run
  refine ⟨consistent.repInv, total, consistent.alloc_returns build, ?_⟩
  intro b member
  obtain ⟨after, _, freed, _⟩ := consistent.free build member
  exact ⟨after, freed⟩

/-- A table of `count` frames that nothing was recorded about. -/
def blankTable (count : ℕ) (addressable : count * kPageSizeBytes ≤ 2 ^ 64) : PageMetaTable where
  pageFramesMetas := fun _ => ⟨.dummy, 0, none, none, none, 0, 0, 0⟩
  numPageFrames := count
  addressable := addressable

/-- An allocator before `Init` on four frames. -/
def blank : BuddyPmm := ⟨blankTable 4 (by decide), fun _ => none⟩

/-- A bitmap of `count` free frames. -/
def clearBitmap (count : ℕ) : BitmapPmm := ⟨⟨fun _ => BitmapPmm.bitMapFree, count⟩, count - 1⟩

/-- `Init` takes over all frames of such a bitmap. -/
theorem mem_handedOver_clear {count page : ℕ} :
    page ∈ handedOver (clearBitmap count) count count ↔ page < count := by
  refine ⟨fun member => member.1, fun inside => ⟨inside, rfl, ?_⟩⟩
  exact lt_of_le_of_lt (Nat.count_le _) inside

theorem run_alloc_first {page : ℕ}
    (allocated : (alloc build order).run s = .ok (.ok page) s') :
    Run build ⟨s, ∅⟩ ⟨s', {⟨page / kPageSizeBytes, order⟩}⟩ := by
  have step : Step build (.alloc order) ⟨s, ∅⟩ ⟨s', insert ⟨page / kPageSizeBytes, order⟩ ∅⟩ :=
    Step.alloc allocated
  rw [insert_empty_eq] at step
  exact .single ⟨_, step⟩

theorem run_free_last {page : ℕ} (freed : (free build (pageFrameAddr page)).run s =
    .ok () s') : Run build ⟨s, {⟨page, order⟩}⟩ ⟨s', ∅⟩ := by
  have step : Step build (.free page) ⟨s, {⟨page, order⟩}⟩
      ⟨s', {⟨page, order⟩} \ {⟨page, order⟩}⟩ :=
    Step.free (b := ⟨page, order⟩) rfl freed
  rw [Set.sdiff_self] at step
  exact .single ⟨_, step⟩

/-- `Init` on four free frames, then an `Alloc` of two. -/
theorem repInv_after_alloc :
    ∃ s after, (init .debug (clearBitmap 4) blank.pmt 4096).run blank = .ok () s ∧
      (alloc .debug 1).run s = .ok (.ok 0) after ∧
      RepInv after (handedOver (clearBitmap 4) 4096 blank.pmt.totalPages) {⟨0, 1⟩} := by
  have evaluated : outcome (EStateM.run (do
      init .debug (clearBitmap 4) blank.pmt 4096
      alloc .debug 1) blank) = some (.ok 0) := by decide +kernel
  obtain ⟨after, ran⟩ := eq_ok_of_outcome evaluated
  obtain ⟨_, s, booted, allocated⟩ := run_bind_eq_ok ran
  have run := run_alloc_first allocated
  exact ⟨s, after, booted, allocated, (repInv_of_run booted run).1⟩

/-- Equal free pages mean equal freelists; with nothing live, those that `Init` made. -/
theorem freelists_of_freePages {x' : Held}
    (ran : (init build bPmm pmt pageLimit).run s = .ok () s')
    (run : Run build ⟨s', ∅⟩ x) (run' : Run build ⟨s', ∅⟩ x') :
    (freePages x.pmm = freePages x'.pmm → ∀ order ≤ kMaxOrder, ∀ page,
      OnList x.pmm.next (x.pmm.freelistTable order) page ↔
        OnList x'.pmm.next (x'.pmm.freelistTable order) page) ∧
      (x.live = ∅ → freeBlocks x.pmm = freeBlocks s') := by
  have determined : ∀ {y y' : Held}, Run build ⟨s', ∅⟩ y → Run build ⟨s', ∅⟩ y' →
      freePages y.pmm = freePages y'.pmm → freeBlocks y.pmm = freeBlocks y'.pmm := by
    intro y y' first second same
    obtain ⟨lists, left, _⟩ := consistent_of_init ran first
    obtain ⟨lists', right, _⟩ := consistent_of_init ran second
    unfold freePages at same
    rw [left.books.freelists.freeBlocks_eq, right.books.freelists.freeBlocks_eq] at same ⊢
    exact left.books.tiling.free_eq_of_area_eq right.books.tiling same
  constructor
  · intro same order bound page
    have blocks := Set.ext_iff.mp (determined run run' same) ⟨page, order⟩
    exact ⟨fun met => (blocks.mp ⟨bound, met⟩).2, fun met => (blocks.mpr ⟨bound, met⟩).2⟩
  · intro empty
    apply determined run Relation.ReflTransGen.refl
    -- With nothing live, the free blocks of both states cover the whole pool.
    obtain ⟨lists, left, _⟩ := consistent_of_init ran run
    obtain ⟨lists', right, _⟩ := consistent_of_init ran Relation.ReflTransGen.refl
    have coverLeft := left.repInv.cover
    have coverRight := right.repInv.cover
    rw [empty, Set.union_empty] at coverLeft
    rw [Set.union_empty] at coverRight
    exact coverLeft.trans coverRight.symm

/-- Allocating two pages and freeing them restores the freelists. -/
theorem freelists_after_alloc_free :
    ∃ s middle after, (init .debug (clearBitmap 4) blank.pmt 4096).run blank = .ok () s ∧
      (alloc .debug 1).run s = .ok (.ok 0) middle ∧
      (free .debug (pageFrameAddr 0)).run middle = .ok () after ∧
      freeBlocks after = freeBlocks s := by
  have evaluated : outcome (EStateM.run (do
      init .debug (clearBitmap 4) blank.pmt 4096
      let page ← alloc .debug 1
      free .debug (pageFrameAddr 0)
      return page) blank) = some (.ok 0) := by decide +kernel
  obtain ⟨final, ran⟩ := eq_ok_of_outcome evaluated
  obtain ⟨_, s, booted, rest⟩ := run_bind_eq_ok ran
  obtain ⟨page, middle, allocated, rest⟩ := run_bind_eq_ok rest
  obtain ⟨_, after, freed, rest⟩ := run_bind_eq_ok rest
  cases rest
  have first := run_alloc_first allocated
  have run := first.trans (run_free_last freed)
  exact ⟨s, middle, _, booted, allocated, freed, (freelists_of_freePages booted run run).2 rfl⟩

/-- The free pages are the pool without the live pages. -/
theorem Consistent.freePages_eq (consistent : Consistent x pool lists) :
    freePages x.pmm = pool \ Block.area x.live := by
  unfold freePages
  rw [consistent.books.freelists.freeBlocks_eq]
  exact consistent.books.tiling.area_free_eq

/-- The range of `2 ^ order` pages from `pfn` on is aligned and free. -/
def FreeRange (s : BuddyPmm) (pfn order : ℕ) : Prop :=
  2 ^ order ∣ pfn ∧ ∀ page, pfn ≤ page → page < pfn + 2 ^ order → page ∈ freePages s

/-- A successful `Alloc` returns the head of a free range and takes that range. -/
theorem Consistent.alloc_taken (consistent : Consistent x pool lists) {lists' : ℕ → List ℕ}
    {pfn : ℕ} (taken : Taken x.pmm s' pool lists lists' x.live ⟨pfn, order⟩) :
    FreeRange x.pmm pfn order ∧
      freePages s' = freePages x.pmm \ Set.Ico pfn (pfn + 2 ^ order) := by
  have after := consistent.taken taken
  refine ⟨⟨after.books.tiling.live_aligned (Set.mem_insert _ _), ?_⟩, ?_⟩
  · intro page low high
    unfold freePages
    rw [consistent.books.freelists.freeBlocks_eq]
    exact taken.within ⟨low, high⟩
  · have grown : Block.area (insert ⟨pfn, order⟩ x.live) =
        Set.Ico pfn (pfn + 2 ^ order) ∪ Block.area x.live := Set.biUnion_insert _ _ _
    rw [consistent.freePages_eq, Set.sdiff_sdiff, Set.union_comm, ← grown]
    exact after.freePages_eq

/-- `Alloc` runs out of memory exactly when no aligned range of the order is free. -/
theorem alloc_complete (ran : (init build bPmm pmt pageLimit).run s = .ok () s')
    (run : Run build ⟨s', ∅⟩ x) (bound : order ≤ kMaxOrder) :
    ((alloc build order).run x.pmm = .ok (.error .outOfMemory) x.pmm ↔
        ¬ ∃ pfn, FreeRange x.pmm pfn order) ∧
      ((alloc build order).run x.pmm = .ok (.error .outOfMemory) x.pmm ∨
        ∃ pfn after, (alloc build order).run x.pmm =
            .ok (.ok (pageFrameAddr pfn)) after ∧ FreeRange x.pmm pfn order ∧
          freePages after = freePages x.pmm \ Set.Ico pfn (pfn + 2 ^ order)) := by
  obtain ⟨lists, consistent, _⟩ := consistent_of_init ran run
  rcases consistent.books.alloc consistent.typed build bound with
    ⟨after, lists', pfn, allocated, taken⟩ | ⟨failed, _⟩
  · obtain ⟨range, rest⟩ := consistent.alloc_taken taken
    refine ⟨⟨?_, fun none => (none ⟨pfn, range⟩).elim⟩, Or.inr ⟨pfn, after, allocated, range, rest⟩⟩
    intro failed
    cases allocated.symm.trans failed
  · refine ⟨⟨?_, fun _ => failed⟩, Or.inl failed⟩
    intro _ ⟨pfn, aligned, free⟩
    unfold freePages at free
    rw [consistent.books.freelists.freeBlocks_eq] at free
    obtain ⟨_, _, _, succeeded, _⟩ := consistent.books.alloc_of_range consistent.typed build
      (b := ⟨pfn, order⟩) aligned bound (fun page here => free page here.1 here.2)
    cases failed.symm.trans succeeded

/-- With four free frames there is no free range of eight. -/
theorem no_freeRange_of_four_frames :
    ∃ s, (init .debug (clearBitmap 4) blank.pmt 4096).run blank = .ok () s ∧
      (alloc .debug 3).run s = .ok (.error .outOfMemory) s ∧
      ¬ ∃ pfn, FreeRange s pfn 3 := by
  have evaluated : outcome (EStateM.run (do
      init .debug (clearBitmap 4) blank.pmt 4096
      alloc .debug 3) blank) = some (.error .outOfMemory) := by decide +kernel
  obtain ⟨after, ran⟩ := eq_ok_of_outcome evaluated
  obtain ⟨_, s, booted, failed⟩ := run_bind_eq_ok ran
  obtain ⟨complete, same | ⟨_, _, succeeded, _⟩⟩ :=
    alloc_complete booted .refl (by decide : 3 ≤ kMaxOrder)
  · exact ⟨s, booted, same, complete.mp same⟩
  · cases failed.symm.trans succeeded

end AlkOS.Mem.BuddyPmm
