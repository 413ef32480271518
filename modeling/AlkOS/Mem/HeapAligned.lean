import AlkOS.Mem.Heap

/-!
# Aligned requests

`MallocAligned` adds the alignment and the size of the header modulo 2 to the power 64.
As long as nothing wraps, the aligned pointer lies in the block of `Malloc` and
`FreeAligned` gives that block back. A request that wraps may get a block that is much
too small.
-/

namespace AlkOS.Mem.Heap

open Kernel DyadicBlocks SlabHeap SlabAllocator KmemCache

/-- The direct map covers 512 GiB. -/
def kDirectMapSize : ℕ := 2 ^ 39

theorem physToVirt_eq {pptr : ℕ} (mapped : pptr < kDirectMapSize) :
    physToVirt pptr = pptr + kDirectMapAddrStart := by
  unfold physToVirt kDirectMapAddrStart
  unfold kDirectMapSize at mapped
  omega

theorem virtToPhys_eq (pptr : ℕ) : virtToPhys (pptr + kDirectMapAddrStart) = pptr := by
  unfold virtToPhys
  rw [if_pos (Nat.le_add_left _ _), Nat.add_sub_cancel]

/-- The least multiple that is not below. -/
theorem alignUp_spec (num : ℕ) {alignment : ℕ} (positive : 0 < alignment)
    (room : num + alignment ≤ 2 ^ 64) :
    alignment ∣ alignUp num alignment ∧ num ≤ alignUp num alignment ∧
      alignUp num alignment < num + alignment := by
  unfold alignUp
  by_cases trivial : alignment ≤ 1
  · have one : alignment = 1 := by omega
    rw [one]
    exact ⟨one_dvd _, le_rfl, Nat.lt_succ_self _⟩
  · rw [if_neg trivial]
    have sum : (num + alignment + (2 ^ 64 - 1)) % 2 ^ 64 = num + alignment - 1 := by omega
    rw [sum]
    have quotient := Nat.div_add_mod (num + alignment - 1) alignment
    have remainder := Nat.mod_lt (num + alignment - 1) positive
    rw [mul_comm] at quotient
    refine ⟨Dvd.intro_left _ rfl, ?_, ?_⟩
    · omega
    · omega

/-- Requests beyond the largest block of the buddy allocator have an order it rejects. -/
theorem order_le_iff {size : ℕ} : sizeToPageOrder size ≤ BuddyPmm.kMaxOrder ↔ size ≤ 2 ^ 22 := by
  unfold sizeToPageOrder
  by_cases page : size ≤ kPageSizeBytes
  · rw [if_pos page]
    unfold kPageSizeBytes at page
    exact iff_of_true (Nat.zero_le _) (by omega)
  · rw [if_neg page]
    unfold kPageSizeBytes at page ⊢
    have index : (size - 1) / 4096 ≠ 0 := by omega
    change Nat.log2 ((size - 1) / 4096) < 10 ↔ _
    rw [Nat.log2_lt index]
    omega

/-- The caches of the kernel after their `Init`, on a machine whose memory lies in the
direct map. -/
structure Booted (build : Build) (w : SlabWorld) : Prop where
  started : Started build layouts w
  mapped : w.heap.buddy.pmt.totalPages * kPageSizeBytes ≤ kDirectMapSize

/-- The world was reached by calls of both allocators and by writes to memory the callers hold. -/
def Ready (build : Build) (w : SlabWorld) : Prop :=
  ∃ start, Booted build start ∧ Reaches build start w

variable {build : Build} {w w' : SlabWorld} {pool : Set ℕ} {pptr : ℕ}

/-- Reachable worlds keep the slab invariants. -/
theorem Ready.kept (ready : Ready build w) : ∃ pool, Kept w layouts pool ∧
    ∀ pfn ∈ pool, (pfn + 1) * kPageSizeBytes ≤ kDirectMapSize := by
  obtain ⟨start, ⟨started, mapped⟩, reaches⟩ := ready
  obtain ⟨bPmm, pmt, pageLimit, s, s', ran, before⟩ := started.buddy
  obtain ⟨free, sound, placed⟩ := started.sound ran before
  obtain ⟨_, _, total⟩ := BuddyPmm.consistent_of_init ran before
  have kept := Kept.run ⟨free, _, _, sound, placed⟩ (started.run_of_few layouts_few reaches)
  refine ⟨_, kept, fun pfn member => ?_⟩
  have inside : pfn < start.heap.buddy.pmt.totalPages := by
    have bound := member.1
    rw [← total] at bound
    exact bound
  exact le_trans (Nat.mul_le_mul_right _ inside) mapped

/-- The allocator a block comes from. -/
inductive Source where
  | cache (c : ℕ)
  | buddy (order : ℕ)

namespace Source

/-- The size of the blocks. -/
def size : Source → ℕ
  | .cache c => (layouts c).objSize
  | .buddy order => 2 ^ order * kPageSizeBytes

/-- A block of this source starts at the address and is in the hands of a client. -/
def Owns (w : SlabWorld) (pptr : ℕ) : Source → Prop
  | .cache c => pptr ∈ w.live c
  | .buddy order => ∃ pfn, (⟨pfn, order⟩ : Block) ∈ w.blocks ∧ pptr = pfn * kPageSizeBytes

/-- Give a block back to its source. -/
def giveBack (build : Build) (pptr : ℕ) : Source → Kernel SlabHeap Unit
  | .cache c => KmemCache.free build c pptr
  | .buddy _ => onBuddy (BuddyPmm.free build pptr)

theorem size_pos (source : Source) : 0 < source.size := by
  cases source with
  | cache c => exact (layouts_valid c).size
  | buddy order => exact Nat.mul_pos (Nat.two_pow_pos _) (by decide)

variable {source : Source}

/-- Blocks lie in the direct map. -/
theorem Owns.mapped (owns : source.Owns w pptr) (kept : Kept w layouts pool)
    (direct : ∀ pfn ∈ pool, (pfn + 1) * kPageSizeBytes ≤ kDirectMapSize) :
    pptr + source.size ≤ kDirectMapSize := by
  obtain ⟨free, chains, lists, sound, _⟩ := kept
  have inPool : ∀ b ∈ w.blocks ∪ w.heap.slabBlocks,
      (b.base + 2 ^ b.order) * kPageSizeBytes ≤ kDirectMapSize := by
    intro b member
    have positive := Nat.two_pow_pos b.order
    have last : b.base + 2 ^ b.order - 1 ∈ pool := by
      rw [← sound.stock.books.tiling.partition.cover]
      refine Block.mem_area.mpr ⟨b, Or.inr member, Block.mem_pages.mpr ⟨?_, ?_⟩⟩
      · omega
      · omega
    have bound := direct _ last
    rw [Nat.sub_add_cancel (by omega)] at bound
    exact bound
  cases source with
  | cache c =>
    obtain ⟨p, i, slab, inside, _, rfl⟩ := (sound.stock.handed c pptr).mp (Or.inl owns)
    obtain ⟨address, upto⟩ := sound.stock.object_eq slab inside
    have bound := inPool _ (sound.stock.block_live slab)
    have fits := (sound.stock.valid c).block
    rw [Nat.succ_mul] at upto
    rw [Nat.add_mul] at bound
    rw [address]
    change p * kPageSizeBytes + i * (layouts c).objSize + (layouts c).objSize ≤ _
    change p * kPageSizeBytes + 2 ^ (layouts c).blockOrder * kPageSizeBytes ≤ _ at bound
    omega
  | buddy order =>
    obtain ⟨pfn, member, rfl⟩ := owns
    have bound := inPool _ (Or.inl member)
    rw [Nat.add_mul] at bound
    exact bound

end Source

variable {source : Source}

/-- `Free` looks at the metadata of the pointer's frame. -/
theorem run_free_lookup {s : SlabHeap} (mapped : pptr < kDirectMapSize)
    (inside : pptr / kPageSizeBytes < s.buddy.pmt.numPageFrames) :
    (free build (physToVirt pptr)).run s = EStateM.run (freeByType build
      (pptr / kPageSizeBytes) pptr (s.metaAt (pptr / kPageSizeBytes)).type) s := by
  have notNull : physToVirt pptr ≠ 0 := by
    rw [physToVirt_eq mapped]
    unfold kDirectMapAddrStart
    omega
  have back : virtToPhys (physToVirt pptr) = pptr := by rw [physToVirt_eq mapped, virtToPhys_eq]
  unfold free
  rw [if_neg notNull, back, run_bind run_pageFrameNumber_mul,
    run_bind (run_onBuddy_of_ok (BuddyPmm.run_getPageMeta inside))]
  exact run_bind run_load

/-- `Free` of a pointer into a slab. -/
theorem run_free_slab {s : SlabHeap} {c : ℕ} (mapped : pptr < kDirectMapSize)
    (inside : pptr / kPageSizeBytes < s.buddy.pmt.numPageFrames)
    (slab : (s.metaAt (pptr / kPageSizeBytes)).type = .slab)
    (cache : (s.metaAt (pptr / kPageSizeBytes)).cache = some c) :
    (free build (physToVirt pptr)).run s = (KmemCache.free build c pptr).run s := by
  rw [run_free_lookup mapped inside, slab]
  unfold freeByType
  rw [run_bind (run_asSlab slab), run_bind run_load, cache]

/-- `Free` finds the allocator a block comes from. -/
theorem run_free_of_owns (ready : Ready build w) (owns : source.Owns w pptr) :
    (free build (physToVirt pptr)).run w.heap =
      (source.giveBack build pptr).run w.heap := by
  obtain ⟨pool, kept, direct⟩ := ready.kept
  have mapped : pptr < kDirectMapSize :=
    lt_of_lt_of_le (Nat.lt_add_of_pos_right source.size_pos) (owns.mapped kept direct)
  obtain ⟨free, chains, lists, sound, _⟩ := kept
  cases source with
  | cache c =>
    obtain ⟨p, i, slab, inside, _, rfl⟩ := (sound.stock.handed c pptr).mp (Or.inl owns)
    have here := sound.stock.object_page slab inside
    obtain ⟨type, _, cache⟩ := (sound.stock.record c p slab).pages _ here
    exact run_free_slab mapped
      (sound.stock.books.live_inside (sound.stock.block_live slab) here) type cache
  | buddy order =>
    obtain ⟨pfn, member, rfl⟩ := owns
    have inside := sound.stock.books.live_inside (Or.inl member) (Block.base_mem_pages _)
    have type := (sound.stock.tagged _ member).1
    have number : pfn * kPageSizeBytes / kPageSizeBytes = pfn :=
      Nat.mul_div_cancel pfn (by decide)
    rw [← number] at inside type
    rw [run_free_lookup mapped inside, type]
    rfl

/-- `Malloc` of a small size asks the cache that fits. -/
theorem run_malloc_small {s : SlabHeap} {size c : ℕ} (some : size ≠ 0)
    (small : size < kPageSizeBytes) (found : getCache size = Option.some c) :
    (malloc build size).run s =
      EStateM.run (KmemCache.alloc build kNumSizeClasses c >>= fun result =>
        return mapped result) s := by
  unfold malloc mallocSmall
  rw [if_neg some, if_pos small, found]

/-- `Malloc` of a large size asks the buddy allocator. -/
theorem run_malloc_buddy {s : SlabHeap} {size : ℕ} (some : size ≠ 0)
    (large : ¬ size < kPageSizeBytes) :
    (malloc build size).run s =
      EStateM.run (onBuddy (BuddyPmm.alloc build (sizeToPageOrder size)) >>= fun result =>
        return mapped result) s := by
  unfold malloc
  rw [if_neg some, if_neg large]
  rfl

/-- `Malloc` fails, or returns a block of the size for the request. -/
theorem malloc_cases (ready : Ready build w) (size : ℕ) :
    (∃ error s', (malloc build size).run w.heap = .ok (.error error) s') ∨
      ∃ pptr source w', (malloc build size).run w.heap =
          .ok (.ok (physToVirt pptr)) w'.heap ∧ Reaches build w w' ∧
        Source.Owns w' pptr source ∧ source.size = blockSize size := by
  obtain ⟨pool, ⟨free, chains, lists, sound, placed⟩, _⟩ := ready.kept
  by_cases empty : size = 0
  · refine Or.inl ⟨.invalidArgument, w.heap, ?_⟩
    unfold malloc
    rw [if_pos empty]
    rfl
  by_cases small : size < kPageSizeBytes
  · obtain ⟨c, found, _⟩ := exists_getCache empty small.le
    have notWraps : ¬ KmemCache.Wraps w.heap kNumSizeClasses c := not_wraps_of_few fun d => by
      rw [sound.stock.layout d]
      exact layouts_few d
    have outcome := sound.alloc placed build kNumSizeClasses notWraps
    rw [run_malloc_small empty small found]
    generalize ran : (KmemCache.alloc build kNumSizeClasses c).run w.heap = result
      at outcome
    cases outcome with
    | @object ptr s' _ _ _ sound' =>
      refine Or.inr ⟨ptr, .cache c, hand w s' c ptr, ?_, .single ⟨.alloc kNumSizeClasses c,
        .alloc ran⟩, mem_live_hand w s' c ptr, (blockSize_small small found).symm⟩
      rw [run_bind ran]
      rfl
    | @error error s' =>
      refine Or.inl ⟨error, s', ?_⟩
      rw [run_bind ran]
      rfl
    | stuck tooDeep => exact (tooDeep (layouts_within c)).elim
  · rw [run_malloc_buddy empty small]
    rcases sound.allocBlock build (sizeToPageOrder size) with
      ⟨buddy, free', pfn, ran, _, sound', _⟩ | ⟨error, ran⟩
    · have inside := sound'.stock.books.live_inside (Or.inl (Set.mem_insert _ _))
        (Block.base_mem_pages ⟨pfn, sizeToPageOrder size⟩)
      have address := pageFrameAddr_div inside
      refine Or.inr ⟨pageFrameAddr pfn, .buddy (sizeToPageOrder size), _, ?_,
        .single ⟨.allocBlock (sizeToPageOrder size), .allocBlock ran⟩, ⟨pfn, ?_, address⟩,
        (if_neg small).symm⟩
      · rw [run_bind (run_onBuddy_of_ok ran)]
        rfl
      · rw [address, Nat.mul_div_cancel pfn (by decide)]
        exact Set.mem_insert _ _
    · refine Or.inl ⟨error, w.heap, ?_⟩
      rw [run_bind (run_onBuddy_of_ok ran)]
      rfl

/-- While the block is held and its header intact, `FreeAligned` gives it back to its source. -/
def GivesBack (build : Build) (w : SlabWorld) (source : Source) (pptr p : ℕ) : Prop :=
  ∀ later, Reaches build w later → source.Owns later pptr →
    later.heap.memory.readLE (headerAddr p) headerSize =
      w.heap.memory.readLE (headerAddr p) headerSize →
    (freeAligned build p).run later.heap =
        (free build (physToVirt pptr)).run later.heap ∧
      (free build (physToVirt pptr)).run later.heap =
        (source.giveBack build pptr).run later.heap

/-- `MallocAligned` fails, or its pointer has room for the header and the bytes in the block. -/
def SafeAligned (build : Build) (w : SlabWorld) (size alignment : ℕ) : Prop :=
  (∃ error s', (mallocAligned build size alignment).run w.heap = .ok (.error error) s') ∨
    ∃ p pptr source s₁ w',
      (malloc build (allocSize size alignment)).run w.heap =
        .ok (.ok (physToVirt pptr)) s₁ ∧
      (mallocAligned build size alignment).run w.heap = .ok (.ok p) w'.heap ∧
      Reaches build w w' ∧ Source.Owns w' pptr source ∧ alignment ∣ p ∧
      physToVirt pptr + headerSize ≤ p ∧ p + size ≤ physToVirt pptr + source.size ∧
      GivesBack build w' source pptr p

/-- The sum of size, alignment and header does not wrap to a size that `Malloc` serves. -/
def Serviceable (size alignment : ℕ) : Prop :=
  size + alignment + headerSize < 2 ^ 64 ∨ allocSize size alignment = 0 ∨
    2 ^ 22 < allocSize size alignment

variable {size k : ℕ}

/-- A power of two passes the check of `MallocAligned`. -/
theorem run_mallocAligned (build : Build) (s : SlabHeap) (size k : ℕ) :
    (mallocAligned build size (2 ^ k)).run s =
      (malloc build (allocSize size (2 ^ k)) >>= placeHeader (2 ^ k)).run s := by
  have power : ¬ (2 ^ k = 0 ∨ 2 ^ k &&& (2 ^ k - 1) ≠ 0) := by
    rintro (zero | mask)
    · exact absurd zero (Nat.two_pow_pos k).ne'
    · rw [Nat.and_two_pow_sub_one_eq_mod, Nat.mod_self] at mask
      exact mask rfl
  unfold mallocAligned
  rw [if_neg power]

theorem mallocAligned_fails {error : MemError} {s s' : SlabHeap}
    (failed : (malloc build (allocSize size (2 ^ k))).run s = .ok (.error error) s') :
    (mallocAligned build size (2 ^ k)).run s = .ok (.error error) s' := by
  rw [run_mallocAligned, run_bind failed]
  rfl

/-- Where the aligned pointer and its header lie in the block. -/
theorem alignedAddr_spec (mapped : pptr + source.size ≤ kDirectMapSize)
    (enough : size + 2 ^ k + headerSize ≤ source.size) :
    2 ^ k ∣ alignedAddr (physToVirt pptr) (2 ^ k) ∧
      physToVirt pptr + headerSize ≤ alignedAddr (physToVirt pptr) (2 ^ k) ∧
      alignedAddr (physToVirt pptr) (2 ^ k) + size ≤ physToVirt pptr + source.size ∧
      alignedAddr (physToVirt pptr) (2 ^ k) < 2 ^ 64 ∧
      headerAddr (alignedAddr (physToVirt pptr) (2 ^ k)) + headerSize + kDirectMapAddrStart =
        alignedAddr (physToVirt pptr) (2 ^ k) := by
  have positive := source.size_pos
  have virtual : physToVirt pptr = pptr + kDirectMapAddrStart := physToVirt_eq (by omega)
  have start : kDirectMapAddrStart = 2 ^ 64 - 2 ^ 47 := rfl
  have whole : kDirectMapSize = 2 ^ 39 := rfl
  have header : headerSize = 8 := rfl
  have first : (physToVirt pptr + headerSize) % 2 ^ 64 = physToVirt pptr + headerSize :=
    Nat.mod_eq_of_lt (by omega)
  obtain ⟨aligned, lower, upper⟩ := alignUp_spec (physToVirt pptr + headerSize)
    (Nat.two_pow_pos k) (by omega)
  have address : alignedAddr (physToVirt pptr) (2 ^ k) =
      alignUp (physToVirt pptr + headerSize) (2 ^ k) := by
    unfold alignedAddr
    rw [first]
  rw [address]
  have before : (alignUp (physToVirt pptr + headerSize) (2 ^ k) + (2 ^ 64 - headerSize)) %
      2 ^ 64 = alignUp (physToVirt pptr + headerSize) (2 ^ k) - headerSize - kDirectMapAddrStart +
        kDirectMapAddrStart := by
    omega
  unfold headerAddr
  rw [before, virtToPhys_eq]
  omega

/-- The bytes of a block are in the hands of a client. -/
theorem Source.Owns.holds (owns : source.Owns w pptr) (kept : Kept w layouts pool) {address : ℕ}
    (lower : pptr ≤ address) (upper : address < pptr + source.size) : Holds w address := by
  obtain ⟨_, _, _, sound, _⟩ := kept
  cases source with
  | cache c =>
    refine Or.inl ⟨c, pptr, owns, lower, ?_⟩
    rw [sound.stock.layout c]
    exact upper
  | buddy order =>
    obtain ⟨pfn, member, rfl⟩ := owns
    refine Or.inr ⟨⟨pfn, order⟩, member, lower, ?_⟩
    rw [Nat.add_mul]
    exact upper

theorem Source.Owns.onHeap (owns : source.Owns w pptr) (s : SlabHeap) :
    source.Owns ⟨s, w.live, w.blocks⟩ pptr := by
  cases source with
  | cache c => exact owns
  | buddy order => exact owns

theorem Ready.reaches (ready : Ready build w) (reaches : Reaches build w w') : Ready build w' := by
  obtain ⟨start, booted, before⟩ := ready
  exact ⟨start, booted, before.trans reaches⟩

/-- A request that does not wrap is safe. -/
theorem safeAligned_of_lt (ready : Ready build w) (fits : size + 2 ^ k + headerSize < 2 ^ 64) :
    SafeAligned build w size (2 ^ k) := by
  have request : allocSize size (2 ^ k) = size + 2 ^ k + headerSize := Nat.mod_eq_of_lt fits
  rcases malloc_cases ready (allocSize size (2 ^ k)) with
    ⟨error, s', failed⟩ | ⟨pptr, source, w', ran, reaches, owns, block⟩
  · exact Or.inl ⟨error, s', mallocAligned_fails failed⟩
  obtain ⟨pool, kept, direct⟩ := (ready.reaches reaches).kept
  have mapped := owns.mapped kept direct
  have enough := le_blockSize (allocSize size (2 ^ k))
  rw [← block, request] at enough
  obtain ⟨aligned, header, last, small, place⟩ := alignedAddr_spec mapped enough
  generalize target : alignedAddr (physToVirt pptr) (2 ^ k) = p at aligned header last small place
  have virtual : physToVirt pptr = pptr + kDirectMapAddrStart := physToVirt_eq (by omega)
  -- The header lies in the block, so writing it is a write of the block's holder.
  have written : Step build .write w' ⟨{ w'.heap with
      memory := w'.heap.memory.writeLE (headerAddr p) headerSize (physToVirt pptr) }, w'.live,
      w'.blocks⟩ := by
    refine .write fun address outside => Bytes.blit_outside ?_
    by_contra inside
    exact outside (owns.holds kept (by omega) (by omega))
  refine Or.inr ⟨p, pptr, source, w'.heap, _, ran, ?_, reaches.tail ⟨_, written⟩,
    owns.onHeap _, aligned, header, last, ?_⟩
  · rw [run_mallocAligned, run_bind ran]
    subst target
    rfl
  · intro later after owner intact
    refine ⟨?_, run_free_of_owns ((ready.reaches (reaches.tail ⟨_, written⟩)).reaches after) owner⟩
    have stored : later.heap.memory.readLE (headerAddr p) headerSize = physToVirt pptr := by
      have width : 256 ^ headerSize = 2 ^ 64 := by decide
      rw [intact, Bytes.readLE_writeLE]
      exact Nat.mod_eq_of_lt (by omega)
    have notNull : p ≠ 0 := by
      unfold headerSize at header
      omega
    unfold freeAligned
    rw [if_neg notNull, run_get_bind, stored]

/-- A request that wraps and is served gets a block that is too small. -/
theorem not_safeAligned_of_wraps (ready : Ready build w) (exponent : k < 64)
    (wraps : 2 ^ 64 ≤ size + 2 ^ k + headerSize) {raw : ℕ} {s' : SlabHeap}
    (served : (malloc build (allocSize size (2 ^ k))).run w.heap = .ok (.ok raw) s') :
    ¬ SafeAligned build w size (2 ^ k) := by
  rintro (⟨error, s'', failed⟩ | ⟨p, pptr, source, _, w', _, _, reaches, owns, _, first, last, _⟩)
  · rw [run_mallocAligned, run_bind served] at failed
    cases failed
  · obtain ⟨pool, kept, direct⟩ := (ready.reaches reaches).kept
    have mapped := owns.mapped kept direct
    have power : 2 ^ k ≤ 2 ^ 63 := Nat.pow_le_pow_right (by decide) (by omega)
    unfold kDirectMapSize at mapped
    omega

/-- A machine with some free frames. -/
theorem exists_booted (build : Build) (count : ℕ) (fits : count * kPageSizeBytes ≤ 2 ^ 64)
    (mapped : count * kPageSizeBytes ≤ kDirectMapSize) :
    ∃ buddy, EStateM.run (BuddyPmm.init build (BuddyPmm.clearBitmap count)
        (BuddyPmm.blankTable count fits) count) BuddyPmm.blank = .ok () buddy ∧
      Booted build (fresh layouts buddy) := by
  obtain ⟨buddy, ran⟩ := BuddyPmm.init_returns BuddyPmm.blank
    (show (BuddyPmm.blankTable count fits).totalPages ≤
      (BuddyPmm.clearBitmap count).bitmapView.numBits from le_rfl)
  obtain ⟨_, _, total⟩ := BuddyPmm.consistent_of_init ran .refl
  refine ⟨buddy, ran, started_fresh layouts_valid ran, ?_⟩
  change buddy.pmt.totalPages * kPageSizeBytes ≤ kDirectMapSize
  rw [total]
  exact mapped

/-- The first request of a machine with 72 free frames. -/
def firstAlloc (build : Build) (c : ℕ) : Kernel SlabHeap (Except MemError ℕ) := do
  onBuddy (BuddyPmm.init build (BuddyPmm.clearBitmap 72) (BuddyPmm.blankTable 72 (by decide)) 72)
  KmemCache.alloc build kNumSizeClasses c

theorem firstAlloc_succeeds : ∀ c < kNumSizeClasses, ∀ build ∈ [Build.debug, .release],
    ((outcome ((firstAlloc build c).run (fresh layouts BuddyPmm.blank).heap)).map
      Except.toBool) = some true := by
  decide +kernel

/-- Every size up to that of the largest block is served somewhere. -/
theorem exists_malloc (positive : size ≠ 0) (bound : size ≤ 2 ^ 22) :
    ∃ w raw s', Booted build w ∧ (malloc build size).run w.heap = .ok (.ok raw) s' := by
  by_cases small : size < kPageSizeBytes
  · obtain ⟨c, found, inside, _⟩ := exists_getCache positive small.le
    obtain ⟨buddy, booting, booted⟩ := exists_booted build 72 (by decide) (by decide)
    have succeeds := firstAlloc_succeeds c inside build (by cases build <;> decide)
    have chain : (firstAlloc build c).run (fresh layouts BuddyPmm.blank).heap =
        (KmemCache.alloc build kNumSizeClasses c).run (fresh layouts buddy).heap := by
      unfold firstAlloc
      rw [run_bind (run_onBuddy_of_ok booting)]
      rfl
    rw [chain] at succeeds
    cases ran : (KmemCache.alloc build kNumSizeClasses c).run (fresh layouts buddy).heap with
    | error panic s' =>
      rw [ran] at succeeds
      cases succeeds
    | ok result s' =>
      rw [ran] at succeeds
      cases result with
      | error error => cases succeeds
      | ok ptr =>
        refine ⟨fresh layouts buddy, physToVirt ptr, s', booted, ?_⟩
        rw [run_malloc_small positive small found, run_bind ran]
        rfl
  · obtain ⟨buddy, booting, booted⟩ := exists_booted build 1024 (by decide) (by decide)
    obtain ⟨free, sound, _⟩ := booted.started.sound booting .refl
    have order := order_le_iff.mpr bound
    have whole : (⟨0, sizeToPageOrder size⟩ : Block).pages ⊆
        Block.area (BuddyPmm.blocksOf free) := by
      rw [sound.area_free_fresh booted.started]
      intro page here
      have below : page < 0 + 2 ^ sizeToPageOrder size := (Block.mem_pages.mp here).2
      have power : 2 ^ sizeToPageOrder size ≤ 2 ^ 10 := Nat.pow_le_pow_right (by decide) order
      exact BuddyPmm.mem_handedOver_clear.mpr (by omega)
    obtain ⟨buddy', _, page, ran, _⟩ := sound.stock.books.alloc_of_range sound.stock.typed build
      (b := ⟨0, sizeToPageOrder size⟩) (dvd_zero _) order whole
    refine ⟨fresh layouts buddy, physToVirt (pageFrameAddr page),
      { (fresh layouts buddy).heap with buddy := buddy' }, booted, ?_⟩
    rw [run_malloc_buddy positive small, run_bind (run_onBuddy_of_ok ran)]
    rfl

/-- `Malloc` refuses sizes beyond the largest block. -/
theorem run_malloc_large (s : SlabHeap) (large : 2 ^ 22 < size) :
    (malloc build size).run s = .ok (.error .invalidArgument) s := by
  have order : BuddyPmm.kMaxOrder < sizeToPageOrder size := by
    rw [← Nat.not_le, order_le_iff]
    omega
  have refused : (BuddyPmm.alloc build (sizeToPageOrder size)).run s.buddy =
      .ok (.error .invalidArgument) s.buddy := by
    unfold BuddyPmm.alloc
    rw [if_pos order]
    rfl
  unfold malloc
  rw [if_neg (by omega), if_neg (by unfold kPageSizeBytes; omega)]
  change (onBuddy (BuddyPmm.alloc build (sizeToPageOrder size)) >>= _).run s = _
  rw [run_bind (run_onBuddy_of_ok refused)]
  rfl

/-- `MallocAligned` is safe in every world exactly when its request does not wrap to a served size.
-/
theorem mallocAligned_safe_iff (build : Build) (exponent : k < 64) :
    (∀ w, Ready build w → SafeAligned build w size (2 ^ k)) ↔ Serviceable size (2 ^ k) := by
  constructor
  · intro safe
    by_contra wraps
    unfold Serviceable at wraps
    simp only [not_or, not_lt] at wraps
    obtain ⟨wrapped, positive, bound⟩ := wraps
    obtain ⟨w, raw, s', booted, served⟩ := exists_malloc positive bound
    exact not_safeAligned_of_wraps ⟨w, booted, .refl⟩ exponent wrapped served
      (safe w ⟨w, booted, .refl⟩)
  · rintro (fits | zero | large) w ready
    · exact safeAligned_of_lt ready fits
    · refine Or.inl ⟨.invalidArgument, w.heap, mallocAligned_fails ?_⟩
      unfold malloc
      rw [if_pos zero]
      rfl
    · exact Or.inl ⟨_, _, mallocAligned_fails (run_malloc_large w.heap large)⟩

/-- A request of 1000 bytes at a multiple of 4096 can be served and is safe. -/
theorem mallocAligned_safe_page : Serviceable 1000 (2 ^ 12) ∧
    ∀ w, Ready .debug w → SafeAligned .debug w 1000 (2 ^ 12) := by
  have serviceable : Serviceable 1000 (2 ^ 12) := Or.inl (by decide)
  exact ⟨serviceable, (mallocAligned_safe_iff .debug (by decide)).mpr serviceable⟩

/-- A request for nearly the whole address space gets a block of eight bytes. -/
theorem mallocAligned_serves_wrapped : ∃ w p s', Booted .debug w ∧
    (mallocAligned .debug (2 ^ 64 - 16) (2 ^ 4)).run w.heap = .ok (.ok p) s' ∧
      ¬ SafeAligned .debug w (2 ^ 64 - 16) (2 ^ 4) := by
  obtain ⟨w, raw, s', booted, served⟩ := exists_malloc
    (show allocSize (2 ^ 64 - 16) (2 ^ 4) ≠ 0 by decide) (by decide)
  have notSafe := not_safeAligned_of_wraps ⟨w, booted, .refl⟩ (by decide) (by decide) served
  have ran := run_mallocAligned .debug w.heap (2 ^ 64 - 16) 4
  rw [run_bind served] at ran
  exact ⟨w, alignedAddr raw (2 ^ 4), _, booted, ran, notSafe⟩

end AlkOS.Mem.Heap
