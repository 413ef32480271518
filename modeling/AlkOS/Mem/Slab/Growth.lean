import AlkOS.Mem.Slab.Calls

/-!
# Blocks and new slabs

What calls into the buddy allocator and `AllocSlab` do to a sound state.
-/

namespace AlkOS.Mem.KmemCache

open Kernel DyadicBlocks IntrusiveList SlabLayout SlabHeap

variable {build : Build} {w : SlabWorld} {s s' s'' : SlabHeap} {layouts : ℕ → SlabLayout}
  {pool : Set ℕ} {free free' chains : ℕ → List ℕ} {lists : ℕ × SlabList → List ℕ}
  {list : SlabList} {c d p q base ptr order : ℕ} {b : Block} {live : ℕ → Set ℕ}

/-- The caches, their slabs and memory are as before. -/
structure Unmoved (s s' : SlabHeap) : Prop where
  caches : s'.caches = s.caches
  memory : s'.memory = s.memory
  total : s'.buddy.pmt.numPageFrames = s.buddy.pmt.numPageFrames
  kept : ∀ page, (s.metaAt page).type = .slab → s'.metaAt page = s.metaAt page
  types : ∀ page < s.buddy.pmt.numPageFrames, (s'.metaAt page).type = .slab →
    (s.metaAt page).type = .slab

namespace Unmoved

theorem refl : Unmoved s s := ⟨rfl, rfl, rfl, fun _ _ => rfl, fun _ _ type => type⟩

theorem trans (first : Unmoved s s') (second : Unmoved s' s'') : Unmoved s s'' := by
  refine ⟨second.caches.trans first.caches, second.memory.trans first.memory,
    second.total.trans first.total, fun page slab => ?_, fun page inside slab => ?_⟩
  · have same := first.kept page slab
    rw [second.kept page (by rw [same]; exact slab), same]
  · exact first.types page inside (second.types page (first.total ▸ inside) slab)

theorem sameSlabs (unmoved : Unmoved s s') : SameSlabs s s' := by
  refine .of_kept (fun c => by rw [unmoved.caches]) unmoved.total unmoved.types fun page slab => ?_
  unfold SlabHeap.next SlabHeap.prev
  rw [unmoved.kept page slab]

end Unmoved

namespace Sound

variable (sound : Sound w layouts pool free chains lists)
include sound

/-- A change of the buddy allocator's books beside the slabs. -/
theorem unmoved (unmoved : Unmoved w.heap s') {blocks : Set Block}
    (books : BuddyPmm.Books s'.buddy pool free' (blocks ∪ w.heap.slabBlocks))
    (typed : BuddyPmm.Typed s'.buddy free' ∅)
    (tagged : ∀ b ∈ blocks, (s'.metaAt b.base).type = .allocated ∧
      (s'.metaAt b.base).order = b.order) :
    Sound ⟨s', w.live, blocks⟩ layouts pool free' chains lists := by
  refine ⟨sound.stock.frame (fun d => ?_) unmoved.total unmoved.types (fun page slab => ?_)
    (fun _ _ _ address _ _ => ?_) rfl books typed tagged, ?_⟩
  · rw [unmoved.caches]
  · unfold SlabHeap.next SlabHeap.prev
    rw [unmoved.kept page slab]
  · rw [unmoved.memory]
  · refine sound.shelved.congr unmoved.caches (fun page slab => ?_) unmoved.sameSlabs.isSlab
    unfold SlabHeap.next SlabHeap.prev
    rw [unmoved.kept page slab]
    exact ⟨rfl, rfl⟩

/-- No frame of a slab is on the buddy allocator's freelists. -/
theorem slab_page_live {page : ℕ} (inside : page < w.heap.buddy.pmt.numPageFrames)
    (slab : (w.heap.metaAt page).type = .slab) :
    ∃ b ∈ w.heap.slabBlocks, page ∈ b.pages := by
  obtain ⟨c, p, owner, here⟩ := sound.stock.owned page inside slab
  exact ⟨_, ⟨c, owner, (sound.stock.order_eq owner).symm⟩, here⟩

/-- `BuddyPmm::Alloc` beside the slabs. -/
theorem allocBlock (build : Build) (order : ℕ) :
    (∃ buddy free' pfn, (BuddyPmm.alloc build order).run w.heap.buddy =
        .ok (.ok (pageFrameAddr pfn)) buddy ∧
      Unmoved w.heap { w.heap with buddy := buddy } ∧
      Sound ⟨{ w.heap with buddy := buddy }, w.live, insert ⟨pfn, order⟩ w.blocks⟩ layouts pool
        free' chains lists ∧ (⟨pfn, order⟩ : Block) ∉ w.blocks) ∨
      ∃ error, (BuddyPmm.alloc build order).run w.heap.buddy =
        .ok (.error error) w.heap.buddy := by
  rcases sound.stock.books.alloc_cases sound.stock.typed build order with
    ⟨buddy, free', pfn, ran, taken⟩ | failed
  · have unmoved : Unmoved w.heap { w.heap with buddy := buddy } := by
      refine ⟨rfl, rfl, taken.frame.numPageFrames, fun page slab => ?_,
        fun page _ slab => taken.type_eq slab nofun nofun⟩
      by_cases inside : page < w.heap.buddy.pmt.numPageFrames
      · obtain ⟨b, owner, here⟩ := sound.slab_page_live inside slab
        exact taken.frame.elsewhere page
          (sound.stock.books.tiling.live_not_in_area (Or.inr owner) here)
      · refine taken.frame.elsewhere page fun within => inside ?_
        obtain ⟨b, listed, here⟩ := Block.mem_area.mp within
        exact sound.stock.books.free_inside listed here
    have fresh : (⟨pfn, order⟩ : Block) ∉ w.blocks := fun old =>
      sound.stock.books.tiling.live_not_in_area (Or.inl old) (Block.base_mem_pages _)
        (taken.within (Block.base_mem_pages _))
    refine Or.inl ⟨buddy, free', pfn, ran, unmoved, sound.unmoved unmoved ?_ taken.typed ?_, fresh⟩
    · rw [Set.insert_union]
      exact taken.books
    · rintro b (rfl | old)
      · exact ⟨taken.tagged, taken.order⟩
      · change (buddy.metaAt b.base).type = _ ∧ (buddy.metaAt b.base).order = _
        rw [taken.metaAt_eq sound.stock.books (Or.inl old)]
        exact sound.stock.tagged b old
  · exact Or.inr failed

/-- `BuddyPmm::Free` of a block of another client. -/
theorem freeBlock (build : Build) (member : b ∈ w.blocks) :
    ∃ buddy free', (BuddyPmm.free build (pageFrameAddr b.base)).run w.heap.buddy =
        .ok () buddy ∧
      Unmoved w.heap { w.heap with buddy := buddy } ∧
      Sound ⟨{ w.heap with buddy := buddy }, w.live, w.blocks \ {b}⟩ layouts pool free' chains
        lists := by
  obtain ⟨type, order⟩ := sound.stock.tagged b member
  obtain ⟨buddy, free', ran, freed⟩ :=
    sound.stock.books.free (Or.inl member) order build sound.stock.typed type
  have notSlab : b ∉ w.heap.slabBlocks := by
    rintro ⟨c, slab, _⟩
    rw [slab.2.1] at type
    cases type
  have unmoved : Unmoved w.heap { w.heap with buddy := buddy } := by
    refine ⟨rfl, rfl, freed.frame.numPageFrames, fun page slab => ?_,
      fun page _ slab => freed.type_eq slab nofun nofun⟩
    apply freed.frame.elsewhere
    rintro (rfl | listed)
    · rw [slab] at type
      cases type
    · refine sound.stock.books.freelists.notMem_members ?_ listed
      rw [show (w.heap.buddy.metaAt page).type = _ from slab]
      decide
  refine ⟨buddy, free', ran, unmoved, sound.unmoved unmoved ?_ freed.typed ?_⟩
  · have same : (w.blocks ∪ w.heap.slabBlocks) \ {b} = w.blocks \ {b} ∪ w.heap.slabBlocks := by
      rw [Set.union_sdiff_distrib, Set.sdiff_singleton_eq_self notSlab]
    rw [← same]
    exact freed.books
  · rintro x ⟨old, other⟩
    change (buddy.metaAt x.base).type = _ ∧ (buddy.metaAt x.base).order = _
    rw [freed.metaAt_eq sound.stock.books (Or.inl member) ⟨Or.inl old, other⟩]
    exact sound.stock.tagged x old

end Sound

/-- The page loop of `AllocSlab` tags the frames of the block. -/
theorem run_initSlabs (build : Build) (start freelist : ℕ) (layout : SlabLayout) (count : ℕ)
    (inside : start + count ≤ s.buddy.pmt.numPageFrames) :
    ∃ s' : SlabHeap, EStateM.run ((List.range count).forM fun i => do
        let page ← onBuddy (BuddyPmm.getPageMeta build (start + i))
        store page ((← load page).initSlab layout.blockOrder (some c) freelist 0)) s = .ok () s' ∧
      s'.caches = s.caches ∧ s'.memory = s.memory ∧
      s'.buddy.freelistTable = s.buddy.freelistTable ∧
      s'.buddy.pmt.numPageFrames = s.buddy.pmt.numPageFrames ∧
      ∀ page, s'.metaAt page = if start ≤ page ∧ page < start + count then
        (s.metaAt page).initSlab layout.blockOrder (some c) freelist 0 else s.metaAt page := by
  induction count with
  | zero =>
    refine ⟨s, rfl, rfl, rfl, rfl, rfl, fun page => ?_⟩
    rw [if_neg (by omega)]
  | succ count ih =>
    obtain ⟨s₁, ran, caches, memory, table, total, metas⟩ := ih (by omega)
    refine ⟨s₁.setMeta (start + count)
      ((s₁.metaAt (start + count)).initSlab layout.blockOrder (some c) freelist 0), ?_, caches,
      memory, table, total, fun page => ?_⟩
    · rw [run_forM_range_succ ran, run_bind (run_onBuddy_of_ok
        (BuddyPmm.run_getPageMeta (by omega)))]
      rfl
    · rw [metaAt_setMeta]
      by_cases last : page = start + count
      · subst last
        rw [if_pos rfl, if_pos (by omega), metas, if_neg (by omega)]
      · rw [if_neg last, metas page]
        by_cases before : start ≤ page ∧ page < start + count
        · rw [if_pos before, if_pos (by omega)]
        · rw [if_neg before, if_neg (by omega)]

/-- The counters of a cache with one more partial slab. -/
theorem Shelved.counted_pushed (shelved : Shelved s lists) {slabs : SlabList → Option ℕ} :
    Counted { s.caches c with
        slabs := slabs
        numSlabsTotal := incr (s.caches c).numSlabsTotal
        numSlabsPartial := incr (s.caches c).numSlabsPartial }
      fun l => Function.update lists (c, .partly) (p :: lists (c, .partly)) (c, l) := by
  obtain ⟨partial_eq, free_eq, total_eq⟩ := shelved.counts c
  have limit := shelved.length_lt c
  have full : (c, SlabList.full) ≠ (c, .partly) := by simp
  have empty : (c, SlabList.free) ≠ (c, .partly) := by simp
  simp only [Counted, Function.update_self, Function.update_of_ne empty, Function.update_of_ne full,
    List.length_cons]
  rw [partial_eq, total_eq, incr_eq limit, incr_eq (by omega)]
  exact ⟨rfl, free_eq, by omega⟩

namespace Sound

/-- A slab of free objects is put in front of the partial list. -/
theorem installSlab (build : Build) (sound : Sound w layouts pool free chains lists)
    (member : b ∈ w.blocks) (order : b.order = (layouts c).blockOrder)
    (source : Stock.ArraySource w (layouts c) b base live) :
    ∃ s', (installSlab build c (pageFrameAddr b.base) base).run w.heap = .ok () s' ∧
      Sound ⟨s', live, w.blocks \ {b}⟩ layouts pool free
        (Function.update chains b.base (List.range (layouts c).numObjects))
        (Function.update lists (c, .partly) (b.base :: lists (c, .partly))) ∧
      (s'.metaAt b.base).inuse = 0 ∧ KeepsArrays w.heap s' ∧
      ∀ d q, w.heap.IsSlab d q → (s'.metaAt q).inuse = (w.heap.metaAt q).inuse := by
  have stock := sound.stock
  have startInside := stock.books.live_inside (Or.inl member) b.base_mem_pages
  obtain ⟨s₂, tagged, caches, memory, table, total, metas⟩ :=
    run_initSlabs (c := c)
      (s := ⟨w.heap.buddy, (layouts c).writeFreelist base w.heap.memory, w.heap.caches⟩) build
      b.base (if (layouts c).isOffSlab then base else 0) (layouts c)
      (2 ^ (layouts c).blockOrder) (by
        rw [← order]
        exact stock.books.live_below (Or.inl member))
  have installed : Stock.Installed w s₂ layouts c b base := by
    refine ⟨member, order, caches, table, total, fun page here => ?_, fun page away => ?_, memory⟩
    · rw [metas page, if_pos (by rw [← order]; exact Block.mem_pages.mp here)]
      rfl
    · rw [metas page, if_neg (by rw [← order]; exact fun here => away (Block.mem_pages.mpr here))]
      rfl
  have stock₂ := stock.install installed source
  have isSlab : ∀ d q, s₂.IsSlab d q ↔ w.heap.IsSlab d q ∨ (d = c ∧ q = b.base) := fun d q =>
    installed.isSlab_iff stock
  have listedKept : ∀ key, ∀ q ∈ lists key, s₂.metaAt q = w.heap.metaAt q := by
    rintro ⟨d, l⟩ q listed
    exact installed.kept stock ((sound.shelved.member d q).mpr ⟨l, listed⟩)
  have shelves₂ : Shelves s₂ lists := by
    refine ⟨sound.shelved.shelves.family.congr (heads_congr caches)
      (fun key q listed => congrArg PageMeta.next (listedKept key q listed))
      (fun key q listed => congrArg PageMeta.prev (listedKept key q listed)), ?_⟩
    intro key q listed
    rw [listedKept key q listed]
    exact sound.shelved.shelves.tagged key q listed
  have newSlab : s₂.IsSlab c b.base := (isSlab c b.base).mpr (Or.inr ⟨rfl, rfl⟩)
  have unlisted : ∀ key, b.base ∉ lists key := by
    rintro ⟨d, l⟩ listed
    exact installed.differs stock ((sound.shelved.member d b.base).mpr ⟨l, listed⟩) rfl
  obtain ⟨s₃, added, shelves₃, relinked⟩ := shelves₂.addTo build .partly c newSlab.2.1 unlisted
  obtain ⟨sound', arrays, inuse⟩ := relink (c := c) stock₂ relinked shelves₃ (by
      rintro page (rfl | ⟨⟨d, l⟩, listed⟩)
      · exact ⟨c, newSlab⟩
      · exact ⟨d, (isSlab d page).mpr (Or.inl ((sound.shelved.member d page).mpr ⟨l, listed⟩))⟩)
    (fun d q => by
      rw [isSlab, sound.shelved.member d q]
      simp [Family.mem_pushed, exists_or])
    (fun cache => { cache with
      numSlabsTotal := incr cache.numSlabsTotal
      numSlabsPartial := incr cache.numSlabsPartial })
    (fun _ => rfl) (fun _ => rfl) (fun _ => caches ▸ sound.shelved.counted_pushed)
    fun d here => by
      have other : ∀ l, (d, l) ≠ (c, SlabList.partly) := fun l eq => here (Prod.mk.inj eq).1
      rw [caches]
      simp only [Function.update_of_ne (other _)]
      exact sound.shelved.counted d
  refine ⟨_, ?_, sound', ?_, fun m ptr holds => ?_, fun d q slab => ?_⟩
  · unfold KmemCache.installSlab
    rw [run_bind run_loadCache, stock.layout c]
    change (pageFrameNumber build (pageFrameAddr b.base) >>= _).run
      { w.heap with memory := (layouts c).writeFreelist base w.heap.memory } = _
    rw [run_bind (run_pageFrameNumber_pageFrameAddr startInside),
      run_bind tagged, run_bind (run_onBuddy_of_ok
        (BuddyPmm.run_getPageMeta newSlab.1))]
    change (addTo .partly build c b.base >>= _).run s₂ = _
    rw [run_bind added]
    rfl
  · exact (inuse b.base).trans (congrArg PageMeta.inuse installed.fresh)
  · exact arrays m ptr ((installed.holdsFreelist_iff stock).mpr (Or.inl holds))
  · exact (inuse q).trans (congrArg PageMeta.inuse (installed.kept stock slab))

end Sound

/-- `Alloc` would take an object of a slab whose use count is at its 16-bit limit. -/
def Wraps (s : SlabHeap) : (depth c : ℕ) → Prop
  | 0, _ => False
  | depth + 1, c =>
    match (s.caches c).slabs .partly, (s.caches c).slabs .free with
    | some slab, _ => (s.metaAt slab).inuse = 2 ^ 16 - 1 ∧ 2 ^ 16 ≤ (s.caches c).numObjects
    | none, some _ => False
    | none, none => (s.caches c).isOffSlab = true ∧
        ∃ m, (s.caches c).metaCache = some m ∧ Wraps s depth m

/-- The meta caches of a cache form a chain shorter than `depth`. -/
def Within (layouts : ℕ → SlabLayout) : (depth c : ℕ) → Prop
  | 0, _ => False
  | depth + 1, c => (layouts c).isOffSlab = true →
      ∀ m, (layouts c).metaCache = some m → Within layouts depth m

/-- Wrapping depends on the lists and use counts only. -/
theorem Wraps.congr (shelved : Shelved s lists) (unmoved : Unmoved s s') {depth : ℕ} :
    Wraps s' depth c → Wraps s depth c := by
  induction depth generalizing c with
  | zero => exact id
  | succ depth ih =>
    intro wraps
    unfold Wraps at wraps ⊢
    rw [unmoved.caches] at wraps
    cases first : (s.caches c).slabs .partly with
    | some slab =>
      simp only [first] at wraps ⊢
      have tagged := shelved.shelves.tagged (c, .partly) slab
        (shelved.shelves.family.head_mem first)
      rw [unmoved.kept slab tagged] at wraps
      exact wraps
    | none =>
      cases second : (s.caches c).slabs .free with
      | some slab =>
        simp only [first, second] at wraps
      | none =>
        simp only [first, second] at wraps ⊢
        obtain ⟨off, m, used, deeper⟩ := wraps
        exact ⟨off, m, used, ih deeper⟩

theorem Placed.unmoved (placed : Placed s lists ∅) (shelved : Shelved s lists)
    (unmoved : Unmoved s s') : Placed s' lists ∅ := by
  intro c list p member _
  rw [unmoved.caches, unmoved.kept p (shelved.shelves.tagged _ p member)]
  exact placed c list p member (Set.notMem_empty p)

section Runs

variable {metaAlloc : ℕ → Kernel SlabHeap (Except MemError ℕ)} {buddy : BuddyPmm}
  {page metaBase m : ℕ}

theorem run_allocMeta_onSlab (on : (s.caches c).isOffSlab = false) :
    (allocMeta metaAlloc c page).run { s with buddy := buddy } =
      .ok (.ok ((s.caches c).objAddr page (s.caches c).numObjects))
        { s with buddy := buddy } := by
  unfold allocMeta
  rw [run_bind run_loadCache]
  rw [if_neg (by rw [on]; decide)]
  rfl

theorem run_allocMeta_offSlab (metaAlloc : ℕ → Kernel SlabHeap (Except MemError ℕ)) (page : ℕ)
    (off : (s.caches c).isOffSlab = true) (used : (s.caches c).metaCache = some m) :
    (allocMeta metaAlloc c page).run s = (metaAlloc m).run s := by
  unfold allocMeta
  rw [run_bind run_loadCache, if_pos off, used]

variable (blockRan : (BuddyPmm.alloc build (s.caches c).blockOrder).run s.buddy =
  .ok (.ok page) buddy)
include blockRan

/-- With an array the slab is installed. -/
theorem run_grow_installed
    (metaRan : (allocMeta metaAlloc c page).run { s with buddy := buddy } =
      .ok (.ok metaBase) s')
    (installRan : (installSlab build c page metaBase).run s' = .ok () s'') :
    (grow metaAlloc build c).run s = .ok true s'' := by
  have slabRan : (allocSlab metaAlloc build c).run s = .ok (.ok page) s'' := by
    unfold allocSlab
    rw [run_bind run_loadCache, run_bind (run_onBuddy_of_ok blockRan)]
    rw [run_bind metaRan]
    rw [run_bind installRan]
    rfl
  unfold grow
  rw [run_bind slabRan]
  rfl

/-- Without an array the block is freed again. -/
theorem run_grow_undone {error : MemError} {buddy' : BuddyPmm}
    (metaRan : (allocMeta metaAlloc c page).run { s with buddy := buddy } =
      .ok (.error error) s')
    (freed : (BuddyPmm.free build page).run s'.buddy = .ok () buddy') :
    (grow metaAlloc build c).run s = .ok false { s' with buddy := buddy' } := by
  have slabRan : (allocSlab metaAlloc build c).run s =
      .ok (.error error) { s' with buddy := buddy' } := by
    unfold allocSlab
    rw [run_bind run_loadCache, run_bind (run_onBuddy_of_ok blockRan)]
    rw [run_bind metaRan]
    rw [run_bind (run_onBuddy_of_ok freed)]
    rfl
  unfold grow
  rw [run_bind slabRan]
  rfl

theorem run_grow_stuck {panic : Panic}
    (metaRan : (allocMeta metaAlloc c page).run { s with buddy := buddy } =
      .error panic s') : (grow metaAlloc build c).run s = .error panic s' := by
  have slabRan : (allocSlab metaAlloc build c).run s = .error panic s' := by
    unfold allocSlab
    rw [run_bind run_loadCache, run_bind (run_onBuddy_of_ok blockRan)]
    rw [run_bind_of_error metaRan]
  unfold grow
  rw [run_bind_of_error slabRan]

omit blockRan in
theorem run_grow_noBlock {error : MemError}
    (failed : (BuddyPmm.alloc build (s.caches c).blockOrder).run s.buddy =
      .ok (.error error) s.buddy) : (grow metaAlloc build c).run s = .ok false s := by
  have slabRan : (allocSlab metaAlloc build c).run s = .ok (.error error) s := by
    unfold allocSlab
    rw [run_bind run_loadCache, run_bind (run_onBuddy_of_ok failed)]
    rfl
  unfold grow
  rw [run_bind slabRan]
  rfl

end Runs

/-- What `Alloc` can come to: a fresh object, an error without effect, or, with too many meta
caches, no return. -/
inductive Outcome (w : SlabWorld) (layouts : ℕ → SlabLayout) (pool : Set ℕ)
    (chains : ℕ → List ℕ) (lists : ℕ × SlabList → List ℕ) (depth c : ℕ) :
    EStateM.Result Panic SlabHeap (Except MemError ℕ) → Prop where
  | object {ptr : ℕ} {s' : SlabHeap} {free' chains' : ℕ → List ℕ}
      {lists' : ℕ × SlabList → List ℕ} :
      Sound (hand w s' c ptr) layouts pool free' chains' lists' → Placed s' lists' ∅ →
      KeepsArrays w.heap s' → ¬ w.Handed c ptr → Outcome w layouts pool chains lists depth c
        (.ok (.ok ptr) s')
  | error {error : MemError} {s' : SlabHeap} {free' : ℕ → List ℕ} :
      Sound ⟨s', w.live, w.blocks⟩ layouts pool free' chains lists → Unmoved w.heap s' →
      Outcome w layouts pool chains lists depth c (.ok (.error error) s')
  | stuck {panic : Panic} {s' : SlabHeap} : ¬ Within layouts depth c →
      Outcome w layouts pool chains lists depth c (.error panic s')

/-- `Alloc` does what it should for every cache at this depth. -/
def Nested (layouts : ℕ → SlabLayout) (pool : Set ℕ) (build : Build) (depth : ℕ) : Prop :=
  ∀ {w : SlabWorld} {free chains : ℕ → List ℕ} {lists : ℕ × SlabList → List ℕ} (m : ℕ),
    Sound w layouts pool free chains lists → Placed w.heap lists ∅ → ¬ Wraps w.heap depth m →
      Outcome w layouts pool chains lists depth m ((alloc build depth m).run w.heap)

/-- What making sure of a partial slab can come to. -/
inductive Readied (w : SlabWorld) (layouts : ℕ → SlabLayout) (pool : Set ℕ)
    (chains : ℕ → List ℕ) (lists : ℕ × SlabList → List ℕ) (depth c : ℕ) :
    EStateM.Result Panic SlabHeap Bool → Prop where
  | ready {p i : ℕ} {rest : List ℕ} {s' : SlabHeap} {free' chains' : ℕ → List ℕ}
      {lists' : ℕ × SlabList → List ℕ} :
      Sound ⟨s', w.live, w.blocks⟩ layouts pool free' chains' lists' → Placed s' lists' {p} →
      KeepsArrays w.heap s' → (s'.caches c).slabs .partly = some p → chains' p = i :: rest →
      (s'.metaAt p).inuse + 1 < 2 ^ 16 → Readied w layouts pool chains lists depth c (.ok true s')
  | none {s' : SlabHeap} {free' : ℕ → List ℕ} :
      Sound ⟨s', w.live, w.blocks⟩ layouts pool free' chains lists → Unmoved w.heap s' →
      Readied w layouts pool chains lists depth c (.ok false s')
  | stuck {panic : Panic} {s' : SlabHeap} : ¬ Within layouts depth c →
      Readied w layouts pool chains lists depth c (.error panic s')

namespace Sound

variable (sound : Sound w layouts pool free chains lists)
include sound

/-- A slab with free objects has a first one. -/
theorem exists_first (slab : w.heap.IsSlab c p)
    (fewer : (w.heap.metaAt p).inuse < (layouts c).numObjects) :
    ∃ i rest, chains p = i :: rest := by
  have used := (sound.stock.record c p slab).used
  cases split : chains p with
  | nil =>
    rw [split, List.length_nil] at used
    omega
  | cons i rest => exact ⟨i, rest, rfl⟩

theorem head_slab (head : (w.heap.caches c).slabs list = some p) :
    p ∈ lists (c, list) ∧ w.heap.IsSlab c p := by
  have member := sound.shelved.shelves.family.head_mem (k := (c, list)) head
  exact ⟨member, (sound.shelved.member c p).mpr ⟨list, member⟩⟩

/-- A new slab is ready to be taken from. -/
theorem ready_installed (build : Build) (placed : Placed w.heap lists ∅) (member : b ∈ w.blocks)
    (order : b.order = (layouts c).blockOrder)
    (source : Stock.ArraySource w (layouts c) b base live) :
    ∃ s' chains' lists' i rest,
      (KmemCache.installSlab build c (pageFrameAddr b.base) base).run w.heap =
        .ok () s' ∧
      Sound ⟨s', live, w.blocks \ {b}⟩ layouts pool free chains' lists' ∧
      Placed s' lists' {b.base} ∧ KeepsArrays w.heap s' ∧
      (s'.caches c).slabs .partly = some b.base ∧ chains' b.base = i :: rest ∧
      (s'.metaAt b.base).inuse + 1 < 2 ^ 16 := by
  obtain ⟨s', ran, sound', inuse, arrays, others⟩ := sound.installSlab build member order source
  have head : s'.heads (c, .partly) = some b.base := by
    have linked := sound'.shelved.shelves.family.linked (c, .partly)
    rw [Function.update_self] at linked
    exact linked.1
  have slab : s'.IsSlab c b.base := (sound'.head_slab head).2
  obtain ⟨i, rest, first⟩ := sound'.exists_first slab (by
    rw [inuse]
    exact (sound.stock.valid c).objects)
  refine ⟨s', _, _, i, rest, ran, sound', fun d l q listed other => ?_, arrays, head, first, ?_⟩
  · have old : q ∈ lists (d, l) := (Family.mem_pushed.mp listed).resolve_right
      fun new => other new.2
    rw [others d q ((sound.shelved.member d q).mpr ⟨l, old⟩),
      show (s'.caches d).toSlabLayout = (w.heap.caches d).toSlabLayout from
        sound.layoutSame sound' d]
    exact placed d l q old (Set.notMem_empty q)
  · rw [inuse]
    decide

/-- The array of an on-slab cache comes from the block. -/
theorem onSlab_source (member : b ∈ w.blocks) (order : b.order = (layouts c).blockOrder)
    (on : (layouts c).isOffSlab = false) :
    Stock.ArraySource w (layouts c) b
      ((layouts c).objAddr (pageFrameAddr b.base) (layouts c).numObjects) w.live := by
  have source : Stock.ArraySource w (layouts c) b
      (b.base * kPageSizeBytes + (layouts c).numObjects * (layouts c).objSize) w.live :=
    Or.inl ⟨on, rfl, rfl⟩
  have room := (sound.stock.source_room member order source).inside
  have nonempty := (sound.stock.valid c).arraySize_pos
  have address : (layouts c).objAddr (pageFrameAddr b.base) (layouts c).numObjects =
      b.base * kPageSizeBytes + (layouts c).numObjects * (layouts c).objSize := by
    rw [pageFrameAddr_div (sound.stock.books.live_inside (Or.inl member) b.base_mem_pages)]
    exact Nat.mod_eq_of_lt (by omega)
  rw [address]
  exact source

variable (placed : Placed w.heap lists ∅)
include placed

/-- The rest of `Grow` once the freelist array is known. -/
theorem grow_installed (build : Build) (start : SlabWorld) (member : b ∈ w.blocks)
    (order : b.order = (layouts c).blockOrder)
    (source : Stock.ArraySource w (layouts c) b base start.live)
    (blocks : w.blocks \ {b} = start.blocks) (arrays : KeepsArrays start.heap w.heap) {depth : ℕ}
    {chains₀ : ℕ → List ℕ} {lists₀ : ℕ × SlabList → List ℕ} :
    ∃ s', (KmemCache.installSlab build c (pageFrameAddr b.base) base).run w.heap =
        .ok () s' ∧ Readied start layouts pool chains₀ lists₀ depth c (.ok true s') := by
  obtain ⟨s', chains', lists', i, rest, ran, sound', placed', arrays', head, first, roomy⟩ :=
    sound.ready_installed build placed member order source
  rw [blocks] at sound'
  exact ⟨s', ran, .ready sound' placed' (arrays.trans arrays') head first roomy⟩

/-- `Grow`, given what `Alloc` of the meta cache does. -/
theorem grow (build : Build) (depth : ℕ)
    (nested : Nested layouts pool build depth)
    (notWraps : ∀ m, (layouts c).isOffSlab = true → (layouts c).metaCache = some m →
      ¬ Wraps w.heap depth m) :
    Readied w layouts pool chains lists (depth + 1) c
      ((KmemCache.grow (alloc build depth) build c).run w.heap) := by
  have layout := sound.stock.layout c
  rcases sound.allocBlock build (layouts c).blockOrder with
    ⟨buddy, free₁, pfn, allocated, unmoved₁, sound₁, fresh⟩ | ⟨error, failed⟩
  · -- The block belongs to another client while the meta cache allocates.
    have blockRan : (BuddyPmm.alloc build (w.heap.caches c).blockOrder).run w.heap.buddy =
        .ok (.ok (pageFrameAddr pfn)) buddy := by
      rw [layout]
      exact allocated
    have member : (⟨pfn, (layouts c).blockOrder⟩ : Block) ∈
        insert (⟨pfn, (layouts c).blockOrder⟩ : Block) w.blocks := Set.mem_insert _ _
    have blocks : insert (⟨pfn, (layouts c).blockOrder⟩ : Block) w.blocks \
        {⟨pfn, (layouts c).blockOrder⟩} = w.blocks := Set.insert_sdiff_self_of_notMem fresh
    have placed₁ := placed.unmoved sound.shelved unmoved₁
    have arrays₁ : KeepsArrays w.heap { w.heap with buddy := buddy } := .of_same unmoved₁.sameSlabs
    cases off : (layouts c).isOffSlab with
    | false =>
      obtain ⟨s', ran, readied⟩ := sound₁.grow_installed placed₁ build w member rfl
        (sound₁.onSlab_source member rfl off) blocks arrays₁
      rw [run_grow_installed blockRan (run_allocMeta_onSlab (layout ▸ off)) (by
        rw [layout]
        exact ran)]
      exact readied
    | true =>
      obtain ⟨m, used, _⟩ := (sound.stock.valid c).array off
      have outcome := nested m sound₁ placed₁ fun wraps =>
        notWraps m off used (wraps.congr sound.shelved unmoved₁)
      have metaEq := run_allocMeta_offSlab (s := { w.heap with buddy := buddy }) (alloc build depth)
        (pageFrameAddr pfn) (layout ▸ off) (layout ▸ used)
      generalize metaRan : (alloc build depth m).run
        (SlabWorld.heap ⟨{ w.heap with buddy := buddy }, _, _⟩) = result at outcome
      replace metaRan := metaEq.trans metaRan
      cases outcome with
      | @object ptr s₂ free₂ chains₂ lists₂ sound₂ placed₂ arrays₂ unheld =>
        have absent : ptr ∉ w.live m := fun held => unheld (Or.inl held)
        have source : Stock.ArraySource (hand ⟨{ w.heap with buddy := buddy }, w.live,
            insert ⟨pfn, (layouts c).blockOrder⟩ w.blocks⟩ s₂ m ptr) (layouts c)
            ⟨pfn, (layouts c).blockOrder⟩ ptr w.live := by
          refine Or.inr ⟨off, m, used, ?_, ?_⟩
          · exact mem_handed.mpr (.inl ⟨rfl, rfl⟩)
          · change w.live = Function.update (Function.update w.live m (insert ptr (w.live m))) m
              (Function.update w.live m (insert ptr (w.live m)) m \ {ptr})
            rw [Function.update_self, Function.update_idem,
              Set.insert_sdiff_self_of_notMem absent, Function.update_eq_self]
        obtain ⟨s', ran, readied⟩ := sound₂.grow_installed placed₂ build w member rfl source
          blocks (arrays₁.trans arrays₂)
        rw [run_grow_installed blockRan metaRan ran]
        exact readied
      | @error error s₂ free₂ sound₂ unmoved₂ =>
        obtain ⟨buddy₃, free₃, freed, unmoved₃, sound₃⟩ := sound₂.freeBlock build member
        rw [run_grow_undone blockRan metaRan freed]
        have restored : Sound ⟨{ s₂ with buddy := buddy₃ }, w.live, w.blocks⟩ layouts pool
            free₃ chains lists := by
          rw [← blocks]
          exact sound₃
        exact Readied.none restored ((unmoved₁.trans unmoved₂).trans unmoved₃)
      | @stuck panic s₂ tooDeep =>
        rw [run_grow_stuck blockRan metaRan]
        exact Readied.stuck fun within => tooDeep (within off m used)
  · rw [run_grow_noBlock (layout ▸ failed)]
    exact Readied.none sound .refl

/-- A slab of free objects is ready once it is on the partial list. -/
theorem ready_free (build : Build) (freeHead : (w.heap.caches c).slabs .free = some p) {depth : ℕ} :
    Readied w layouts pool chains lists depth c (EStateM.run (do
      moveToPartial build c p
      update c fun cache =>
        { cache with
          numSlabsFree := decr cache.numSlabsFree
          numSlabsPartial := incr cache.numSlabsPartial }
      return true) w.heap) := by
  obtain ⟨member, slab⟩ := sound.head_slab freeHead
  have belongs := placed c .free p member (Set.notMem_empty p)
  have empty : (w.heap.metaAt p).inuse = 0 := by
    by_contra used
    rw [place] at belongs
    by_cases full : (w.heap.metaAt p).inuse = (w.heap.caches c).numObjects
    · rw [if_pos full] at belongs
      cases belongs
    · rw [if_neg full, if_neg used] at belongs
      cases belongs
  have differ : SlabList.free ≠ .partly := by decide
  obtain ⟨s', ran, sound', arrays, inuse⟩ := sound.move build member differ
    (fun cache =>
      { cache with
        numSlabsFree := decr cache.numSlabsFree
        numSlabsPartial := incr cache.numSlabsPartial })
    (fun _ => rfl) (fun _ => rfl) fun _ => sound.shelved.counted_moved differ member
      (by simp [stepped]) (by simp [stepped]) rfl
  have front : Shelves.moved lists c p .free .partly (c, .partly) = p :: lists (c, .partly) := by
    rw [moved_apply differ, if_pos rfl]
  have head : s'.heads (c, .partly) = some p := by
    have linked := sound'.shelved.shelves.family.linked (c, .partly)
    rw [front] at linked
    exact linked.1
  obtain ⟨i, rest, first⟩ := sound'.exists_first (sound'.head_slab head).2 (by
    rw [inuse, empty]
    exact (sound.stock.valid c).objects)
  have moving : Placed s' (Shelves.moved lists c p .free .partly) {p} := by
    intro d l q listed other
    have notSlab : q ≠ p := other
    rw [mem_moved differ member sound.shelved, if_neg notSlab] at listed
    rw [inuse q, show (s'.caches d).toSlabLayout = (w.heap.caches d).toSlabLayout from
      sound.layoutSame sound' d]
    exact placed d l q listed (Set.notMem_empty q)
  rw [← bind_assoc, show EStateM.run ((moveToPartial build c p >>= fun _ => update c _) >>= fun _ =>
    pure true) w.heap = .ok true s' from (run_bind ran).trans rfl]
  refine Readied.ready sound' moving arrays head first ?_
  rw [inuse, empty]
  decide

/-- The first part of `Alloc`. -/
theorem ensurePartial (build : Build) (depth : ℕ)
    (nested : Nested layouts pool build depth)
    (notWraps : ¬ Wraps w.heap (depth + 1) c) :
    Readied w layouts pool chains lists (depth + 1) c
      ((KmemCache.ensurePartial (alloc build depth) build c).run w.heap) := by
  have layout := sound.stock.layout c
  unfold KmemCache.ensurePartial
  rw [run_bind run_loadCache]
  unfold Wraps at notWraps
  cases partlyHead : (w.heap.caches c).slabs .partly with
  | some p =>
    simp only [partlyHead] at notWraps
    obtain ⟨member, slab⟩ := sound.head_slab partlyHead
    have belongs := placed c .partly p member (Set.notMem_empty p)
    have record := sound.stock.record c p slab
    rw [layout] at belongs notWraps
    have notFull : (w.heap.metaAt p).inuse ≠ (layouts c).numObjects := by
      intro full
      rw [place, if_pos full] at belongs
      cases belongs
    have used := record.used
    have small := record.small
    obtain ⟨i, rest, first⟩ := sound.exists_first slab (by omega)
    refine Readied.ready sound (fun d l q listed _ => placed d l q listed (Set.notMem_empty q))
      .refl partlyHead first ?_
    by_contra limit
    exact notWraps ⟨by omega, by omega⟩
  | none =>
    simp only [partlyHead] at notWraps
    cases freeHead : (w.heap.caches c).slabs .free with
    | some p => exact sound.ready_free placed build freeHead
    | none =>
      simp only [freeHead] at notWraps
      refine sound.grow placed build depth nested fun m off used wraps => ?_
      rw [layout] at notWraps
      exact notWraps ⟨off, m, used, wraps⟩

/-- What `Alloc` does in a sound state, unless a use count is about to wrap. -/
theorem alloc (build : Build) (depth : ℕ) (notWraps : ¬ Wraps w.heap depth c) :
    Outcome w layouts pool chains lists depth c
      ((KmemCache.alloc build depth c).run w.heap) := by
  induction depth generalizing w free chains lists c with
  | zero => exact Outcome.stuck id
  | succ depth ih =>
    have readied := sound.ensurePartial placed build depth (fun m => ih) notWraps
    unfold KmemCache.alloc
    generalize ensured : EStateM.run (KmemCache.ensurePartial (KmemCache.alloc build depth) build
      c) w.heap = result at readied
    cases readied with
    | @ready p i rest s' free' chains' lists' sound' placed' arrays head first roomy =>
      obtain ⟨s'', lists'', ran, sound'', placed'', arrays'⟩ :=
        sound'.takeObject build placed' head first roomy
      have slab := (sound'.head_slab head).2
      have record := sound'.stock.record c p slab
      rw [first] at record
      have inside := record.free.bounded i List.mem_cons_self
      have unheld := sound'.stock.not_handed slab inside (by
        rw [first]
        exact List.mem_cons_self)
      rw [run_bind ensured]
      change Outcome w layouts pool chains lists (depth + 1) c
        ((KmemCache.takeObject build c >>= fun ptr => pure (.ok ptr)).run s')
      rw [run_bind ran]
      refine Outcome.object sound'' placed'' (arrays.trans arrays') ?_
      rintro (held | holds)
      · exact unheld (Or.inl held)
      · exact unheld (Or.inr (arrays c _ holds))
    | @none s' free' sound' unmoved =>
      rw [run_bind ensured]
      exact Outcome.error sound' unmoved
    | @stuck panic s' tooDeep =>
      rw [run_bind_of_error ensured]
      exact Outcome.stuck tooDeep

end Sound

end AlkOS.Mem.KmemCache
