import AlkOS.Mem.Slab.Runs

/-!
# A slab with more objects than its use count can tell

A block of 256 frames holds 65536 objects of eight bytes and their freelist. When
the last object is taken, the use count of the slab wraps to zero and the slab
stays on the partial list with an empty freelist.
-/

namespace AlkOS.Mem.KmemCache

open Kernel DyadicBlocks SlabLayout SlabHeap

section Calls

variable {build : Build} {s s' : SlabHeap} {c p depth : ℕ}

/-- `Alloc` when a partial slab could be provided. -/
theorem run_alloc_ready {ptr : ℕ} {s₁ : SlabHeap}
    (ready : (ensurePartial (alloc build depth) build c).run s = .ok true s₁)
    (taken : (takeObject build c).run s₁ = .ok ptr s') :
    (alloc build (depth + 1) c).run s = .ok (.ok ptr) s' := by
  unfold alloc
  rw [run_bind ready]
  change (takeObject build c >>= fun ptr => pure (Except.ok ptr)).run s₁ = _
  rw [run_bind taken]
  rfl

/-- `Alloc` when there is a partial slab. -/
theorem run_alloc_of_head (depth : ℕ) {ptr : ℕ}
    (head : (s.caches c).slabs .partly = some p)
    (taken : (takeObject build c).run s = .ok ptr s') :
    (alloc build (depth + 1) c).run s = .ok (.ok ptr) s' := by
  refine run_alloc_ready ?_ taken
  unfold ensurePartial
  rw [run_bind run_loadCache, head]
  rfl

/-- `Alloc` when there is no slab with free objects. -/
theorem run_alloc_grown {ptr : ℕ} {s₁ : SlabHeap} (noPartial : (s.caches c).slabs .partly = none)
    (noFree : (s.caches c).slabs .free = none)
    (grown : (grow (alloc build depth) build c).run s = .ok true s₁)
    (taken : (takeObject build c).run s₁ = .ok ptr s') :
    (alloc build (depth + 1) c).run s = .ok (.ok ptr) s' := by
  refine run_alloc_ready ?_ taken
  unfold ensurePartial
  rw [run_bind run_loadCache, noPartial, noFree]
  exact grown

/-- `Alloc` from a slab that keeps its list changes the metadata of the slab only. -/
theorem run_takeObject_stays (on : (s.caches c).isOffSlab = false)
    (head : (s.caches c).slabs .partly = some p) (inside : p < s.buddy.pmt.numPageFrames)
    (tagged : (s.metaAt p).type = .slab)
    (allowed : build = .release ∨ (s.metaAt p).freelist ≠ kFreelistSentinel)
    (stays : ((s.metaAt p).inuse + 1) % 2 ^ 16 ≠ (s.caches c).numObjects) :
    ∃ s' freelist, (takeObject build c).run s =
        .ok (s.object c p (s.metaAt p).freelist) s' ∧
      freelist = (s.caches c).nextIdx s.memory (s.arrayBase (s.caches c).toSlabLayout p)
        (s.metaAt p).freelist ∧
      s'.caches = s.caches ∧ Retouched s s' p freelist (((s.metaAt p).inuse + 1) % 2 ^ 16) := by
  have current : (s.caches c).headIdx s.memory (s.metaAt p).freelist = (s.metaAt p).freelist := by
    unfold headIdx
    rw [on]
    rfl
  have checked : EStateM.run (Kernel.assertTrue build
      ((s.metaAt p).freelist ≠ kFreelistSentinel) "Partial slab must have free objects") s =
        .ok () s := by
    rcases allowed with rfl | notLast
    · rfl
    · exact run_assertTrue notLast
  obtain ⟨freelist, next⟩ : ∃ freelist, freelist = (s.caches c).nextIdx s.memory
      (s.arrayBase (s.caches c).toSlabLayout p) (s.metaAt p).freelist := ⟨_, rfl⟩
  have popped : (popFree c p (s.metaAt p).freelist).run s =
      .ok () (s.setMeta p { s.metaAt p with freelist := freelist }) := by
    unfold popFree
    rw [run_bind run_loadCache, on, next]
    rfl
  have counted : (((s.setMeta p { s.metaAt p with freelist := freelist }).metaAt p).inuse + 1) %
      2 ^ 16 = ((s.metaAt p).inuse + 1) % 2 ^ 16 := by rw [metaAt_setMeta, if_pos rfl]
  have kept : (retireFull build c p).run (setInuse (s.setMeta p
      { s.metaAt p with freelist := freelist }) p (((s.metaAt p).inuse + 1) % 2 ^ 16)) =
      .ok () (setInuse (s.setMeta p { s.metaAt p with freelist := freelist }) p
        (((s.metaAt p).inuse + 1) % 2 ^ 16)) := by
    unfold retireFull setInuse
    rw [run_bind run_load, run_bind run_loadCache, metaAt_setMeta,
      if_pos rfl]
    exact if_neg stays ▸ rfl
  refine ⟨setInuse (s.setMeta p { s.metaAt p with freelist := freelist }) p
    (((s.metaAt p).inuse + 1) % 2 ^ 16), freelist, ?_, next, ?_⟩
  · unfold takeObject
    rw [run_bind run_loadCache, head]
    rw [run_bind (run_asSlab tagged),
      run_bind (run_onBuddy_of_ok (BuddyPmm.run_getPageFrameNumber inside)),
      run_get_bind, run_bind run_load]
    rw [current, run_bind checked, run_bind popped,
      run_bind run_load, run_bind run_load, counted]
    change (retireFull build c p >>= _).run (setInuse (s.setMeta p
      { s.metaAt p with freelist := freelist }) p (((s.metaAt p).inuse + 1) % 2 ^ 16)) = _
    rw [run_bind kept]
    rfl
  · refine ⟨rfl, rfl, fun page => ?_⟩
    unfold setInuse
    rw [metaAt_setMeta, metaAt_setMeta, if_pos rfl]
    split_ifs with here
    · rfl
    · rw [metaAt_setMeta, if_neg here]

end Calls

/-- 65536 objects of eight bytes, with their freelist behind them. -/
def wideLayout : SlabLayout where
  objSize := 8
  numObjects := 65536
  metadataSize := .dword
  blockOrder := 8
  isOffSlab := false
  metaCache := none

/-- All caches are configured for wide slabs. -/
def wide : ℕ → SlabLayout := fun _ => wideLayout

theorem wide_valid (c : ℕ) : Valid wide c where
  size := (by decide : 0 < wideLayout.objSize)
  objects := (by decide : 0 < wideLayout.numObjects)
  narrow := (by decide : wideLayout.numObjects < 256 ^ wideLayout.metadataSize.bytes)
  block := (by decide : 65536 * 8 + wideLayout.arraySize ≤ 2 ^ 8 * kPageSizeBytes)
  array := fun off => by cases off

/-- The 256 frames of the machine. -/
def widePool : Set ℕ := BuddyPmm.handedOver (BuddyPmm.clearBitmap 256) 256 256

theorem mem_widePool {page : ℕ} : page ∈ widePool ↔ page < 256 := BuddyPmm.mem_handedOver_clear

variable {build : Build} {w w' : SlabWorld} {free chains : ℕ → List ℕ}
  {lists : ℕ × SlabList → List ℕ} {c p i k : ℕ} {rest : List ℕ}

/-- A wide slab takes all frames. -/
theorem Sound.wide_slab (sound : Sound w wide widePool free chains lists)
    (slab : w.heap.IsSlab c p) : p = 0 := by
  have last : p + 255 ∈ (⟨p, 8⟩ : Block).pages := by
    simp only [Block.pages, Set.mem_Ico]
    omega
  have covered : p + 255 ∈ widePool := by
    rw [← sound.stock.books.tiling.partition.cover]
    exact Block.mem_area.mpr ⟨⟨p, 8⟩, Or.inr (sound.stock.block_live slab), last⟩
  have bound := mem_widePool.mp covered
  omega

/-- The only slab has `k` objects in use. -/
def Filling (w : SlabWorld) (k : ℕ) : Prop :=
  w.heap.IsSlab 0 0 ∧ (w.heap.metaAt 0).inuse = k ∧ (w.live 0).Nonempty ∧
    ∃ free chains lists, Sound w wide widePool free chains lists ∧ Placed w.heap lists ∅

/-- Taking an object of a slab with room for one more in its use count. -/
theorem Sound.fill (build : Build) (sound : Sound w wide widePool free chains lists)
    (placed : Placed w.heap lists {p}) (head : (w.heap.caches 0).slabs .partly = some p)
    (first : chains p = i :: rest) (roomy : (w.heap.metaAt p).inuse + 1 < 2 ^ 16) :
    ∃ s', (KmemCache.takeObject build 0).run w.heap = .ok (w.heap.object 0 p i) s' ∧
      Filling (hand w s' 0 (w.heap.object 0 p i)) ((w.heap.metaAt p).inuse + 1) := by
  obtain ⟨s', lists', ran, sound', placed', _⟩ := sound.takeObject build placed head first roomy
  have slab := (sound.head_slab head).2
  have origin := sound.wide_slab slab
  subst origin
  obtain ⟨q, j, slab', _⟩ := (sound'.stock.handed 0 _).mp (Or.inl (mem_live_hand w s' 0 _))
  have origin' := sound'.wide_slab slab'
  subst origin'
  have used := (sound.stock.record 0 0 slab).used
  have used' := (sound'.stock.record 0 0 slab').used
  rw [first, List.length_cons] at used
  rw [Function.update_self] at used'
  refine ⟨s', ran, slab', ?_, ⟨_, mem_live_hand w s' 0 _⟩, _, _, _, sound', placed'⟩
  omega

/-- The slab of a partly filled world heads the partial list. -/
theorem Filling.head (filling : Filling w k) (positive : 0 < k) (small : k < 2 ^ 16) :
    ∃ free chains lists i rest, Sound w wide widePool free chains lists ∧
      Placed w.heap lists ∅ ∧ (w.heap.caches 0).slabs .partly = some 0 ∧
      chains 0 = i :: rest ∧ k + (i :: rest).length = 65536 := by
  obtain ⟨slab, inuse, _, free, chains, lists, sound, placed⟩ := filling
  have used := (sound.stock.record 0 0 slab).used
  change (w.heap.metaAt 0).inuse + (chains 0).length = 65536 at used
  obtain ⟨i, rest, first⟩ := sound.exists_first slab (by
    change (w.heap.metaAt 0).inuse < 65536
    omega)
  refine ⟨free, chains, lists, i, rest, sound, placed, ?_, first, by rw [← first]; omega⟩
  obtain ⟨list, member⟩ := (sound.shelved.member 0 0).mp slab
  have fits := placed 0 list 0 member (Set.notMem_empty 0)
  have objects : (w.heap.caches 0).numObjects = 65536 :=
    congrArg SlabLayout.numObjects (sound.stock.layout 0)
  rw [place, if_neg (by omega), if_neg (by omega)] at fits
  rw [fits] at member
  have linked := sound.shelved.shelves.family.linked (0, .partly)
  have start := linked.head_eq
  change (w.heap.caches 0).slabs .partly = _ at start
  cases nodes : lists (0, .partly) with
  | nil =>
    rw [nodes] at member
    exact (List.not_mem_nil member).elim
  | cons q others =>
    rw [nodes, List.head?_cons] at start
    rw [start, sound.wide_slab (sound.head_slab start).2]

/-- One more object is taken. -/
theorem Filling.step (build : Build) (filling : Filling w k) (positive : 0 < k)
    (small : k + 1 < 2 ^ 16) : ∃ w', Run build w w' ∧ Filling w' (k + 1) := by
  obtain ⟨free, chains, lists, i, rest, sound, placed, head, first, _⟩ :=
    filling.head positive (by omega)
  obtain ⟨slab, inuse, _⟩ := filling
  obtain ⟨s', ran, filling'⟩ := sound.fill build (fun c list p member _ =>
    placed c list p member (Set.notMem_empty p)) head first (by omega)
  rw [inuse] at filling'
  refine ⟨_, .single ⟨.alloc 1 0, .alloc (run_alloc_of_head 0 head ran), ?_⟩, filling'⟩
  change ¬ KmemCache.Wraps w.heap 1 0
  unfold KmemCache.Wraps
  rw [head]
  omega

/-- Object by object the use count reaches its last value. -/
theorem Filling.full (build : Build) (filling : Filling w k) (positive : 0 < k)
    (small : k < 2 ^ 16) : ∃ w', Run build w w' ∧ Filling w' (2 ^ 16 - 1) := by
  obtain ⟨left, enough⟩ : ∃ left, k + left = 2 ^ 16 - 1 := ⟨2 ^ 16 - 1 - k, by omega⟩
  induction left generalizing w k with
  | zero => exact ⟨w, .refl, enough ▸ filling⟩
  | succ left ih =>
    obtain ⟨w', step, filling'⟩ := filling.step build positive (by omega)
    obtain ⟨final, rest, full⟩ := ih filling' (by omega) (by omega) (by omega)
    exact ⟨final, step.trans rest, full⟩

/-- On an unused machine `Alloc` gets its slab. -/
theorem exists_first_object : ∃ start ptr s' k, Started build wide start ∧
    ¬ KmemCache.Wraps start.heap 1 0 ∧
    (alloc build 1 0).run start.heap = .ok (.ok ptr) s' ∧ 0 < k ∧ k < 2 ^ 16 ∧
    Filling (hand start s' 0 ptr) k := by
  obtain ⟨buddy, booted⟩ : ∃ buddy, EStateM.run (BuddyPmm.init build (BuddyPmm.clearBitmap 256)
      (BuddyPmm.blankTable 256 (by decide)) 256) BuddyPmm.blank = .ok () buddy :=
    BuddyPmm.init_returns BuddyPmm.blank le_rfl
  have started : Started build wide (fresh wide buddy) := started_fresh wide_valid booted
  obtain ⟨free, sound, placed⟩ : ∃ free, Sound (fresh wide buddy) wide widePool free (fun _ => [])
      (fun _ => []) ∧ Placed (fresh wide buddy).heap (fun _ => []) ∅ := started.sound booted .refl
  -- The frames are one free block, so the buddy allocator has a block for the slab.
  rcases sound.allocBlock build 8 with ⟨buddy', free', pfn, ran, unmoved, sound', _⟩ | ⟨error, ran⟩
  · obtain ⟨s', chains, lists, i, rest, installed, sound'', placed'', _, head, first, roomy⟩ :=
      sound'.ready_installed (c := 0) build (placed.unmoved sound.shelved unmoved)
        (Set.mem_insert _ _) rfl (sound'.onSlab_source (c := 0) (Set.mem_insert _ _) rfl rfl)
    have given : insert ⟨pfn, 8⟩ (fresh wide buddy).blocks \ {⟨pfn, 8⟩} = (∅ : Set Block) :=
      Set.insert_sdiff_self_of_notMem (Set.notMem_empty _)
    rw [given] at sound''
    have array : (allocMeta (alloc build 0) 0 (pageFrameAddr pfn)).run
        { (fresh wide buddy).heap with buddy := buddy' } =
          .ok (.ok ((wide 0).objAddr (pageFrameAddr pfn) (wide 0).numObjects))
            { (fresh wide buddy).heap with buddy := buddy' } :=
      run_allocMeta_onSlab (s := (fresh wide buddy).heap) rfl
    have grown : (grow (alloc build 0) build 0).run (fresh wide buddy).heap =
        .ok true s' := run_grow_installed ran array installed
    obtain ⟨s'', taken, filling⟩ := sound''.fill build placed'' head first roomy
    exact ⟨fresh wide buddy, _, s'', _, started, fun wraps => Bool.false_ne_true wraps.1,
      run_alloc_grown rfl rfl grown taken, Nat.succ_pos _, roomy, filling⟩
  · have everything : (⟨0, 8⟩ : Block).pages ⊆ Block.area (BuddyPmm.blocksOf free) := by
      rw [sound.area_free_fresh started]
      intro page here
      exact mem_widePool.mpr (by simpa [Block.pages] using here)
    obtain ⟨_, _, _, succeeded, _⟩ := sound.stock.books.alloc_of_range sound.stock.typed build
      (b := ⟨0, 8⟩) (dvd_zero _) (by decide) everything
    cases succeeded.symm.trans ran

theorem exists_filling : ∃ start w, Started build wide start ∧ Run build start w ∧
    ∃ k, 0 < k ∧ k < 2 ^ 16 ∧ Filling w k := by
  obtain ⟨start, ptr, s', k, started, notWraps, ran, positive, small, filling⟩ :=
    exists_first_object
  exact ⟨start, _, started, .single ⟨.alloc 1 0, .alloc ran, notWraps⟩, k, positive, small,
    filling⟩

/-- With all frames in one slab, `Alloc` of another cache fails. -/
theorem Filling.exhausted (filling : Filling w k) :
    ¬ KmemCache.Wraps w.heap 1 1 ∧
      ∃ error s', (alloc build 1 1).run w.heap = .ok (.error error) s' := by
  obtain ⟨slab, _, ⟨held, live⟩, free, chains, lists, sound, placed⟩ := filling
  have noHead : ∀ list, (w.heap.caches 1).slabs list = none := by
    intro list
    cases head : (w.heap.caches 1).slabs list with
    | none => rfl
    | some q =>
      have other := (sound.head_slab head).2
      rw [sound.wide_slab other] at other
      cases Stock.cache_unique slab other
  have notWraps : ¬ KmemCache.Wraps w.heap 1 1 := by
    unfold KmemCache.Wraps
    rw [noHead .partly, noHead .free]
    rintro ⟨off, _⟩
    rw [congrArg SlabLayout.isOffSlab (sound.stock.layout 1)] at off
    cases off
  have outcome := sound.alloc placed build 1 notWraps
  generalize ran : (alloc build 1 1).run w.heap = result at outcome
  cases outcome with
  | @object ptr s' _ _ _ sound' =>
    -- The slab would have to hold objects of both caches.
    have kept : held ∈ (hand w s' 1 ptr).live 0 := live
    obtain ⟨q, _, left, _⟩ := (sound'.stock.handed 0 held).mp (Or.inl kept)
    obtain ⟨r, _, right, _⟩ := (sound'.stock.handed 1 ptr).mp
      (Or.inl (mem_live_hand w s' 1 ptr))
    rw [sound'.wide_slab left] at left
    rw [sound'.wide_slab right] at right
    cases Stock.cache_unique left right
  | @error error s' => exact ⟨notWraps, error, s', rfl⟩
  | stuck tooDeep => exact (tooDeep fun off => by cases off).elim

/-- The last object of the slab takes its use count back to zero. -/
theorem Filling.overflow (build : Build) (filling : Filling w (2 ^ 16 - 1)) :
    ∃ ptr s', (alloc build 1 0).run w.heap = .ok (.ok ptr) s' ∧
      s'.IsSlab = w.heap.IsSlab ∧ s'.caches = w.heap.caches ∧
      (s'.caches 0).slabs .partly = some 0 ∧ (s'.metaAt 0).inuse = 0 ∧
      (s'.metaAt 0).freelist = kFreelistSentinel := by
  obtain ⟨free, chains, lists, i, rest, sound, placed, head, first, used⟩ :=
    filling.head (by decide) (by decide)
  obtain ⟨slab, inuse, _⟩ := filling
  have list := (sound.stock.record 0 0 slab).free
  have last : rest = [] := by
    rw [List.length_cons] at used
    exact List.eq_nil_of_length_eq_zero (by omega)
  rw [first, last] at list
  have layout : (w.heap.caches 0).toSlabLayout = wideLayout := sound.stock.layout 0
  have index : (w.heap.metaAt 0).freelist = i := list.chained.1
  have bounded : i < 65536 := list.bounded i List.mem_cons_self
  obtain ⟨s', freelist, ran, next, caches, retouched⟩ := run_takeObject_stays
    (congrArg SlabLayout.isOffSlab layout) head slab.1 slab.2.1
    (Or.inr (by rw [index]; exact ne_of_lt (bounded.trans (by decide))))
    (by rw [inuse, congrArg SlabLayout.numObjects layout]; decide)
  refine ⟨_, s', run_alloc_of_head 0 head ran, ?_, caches, ?_, ?_, ?_⟩
  · exact retouched.isSlab
  · rw [caches]
    exact head
  · rw [retouched.here]
    rw [inuse]
    rfl
  · rw [retouched.here, next, layout, index]
    exact list.chained.2

end AlkOS.Mem.KmemCache
