import AlkOS.Mem.Slab.Overflow

/-!
# Slab lists and slab occupancy

Along a run that wraps no use count, the three lists of every cache hold its slabs
sorted by occupancy, and a call of `Alloc` that fails has no effect. Once a count wraps,
a slab without free objects stays on the partial list.
-/

namespace AlkOS.Mem.KmemCache

open DyadicBlocks SlabLayout SlabHeap IntrusiveList

/-- The lists of the cache hold its slabs by occupancy, and the counters are their lengths. -/
def ListsMatch (s : SlabHeap) (c : ℕ) : Prop :=
  ∃ lists : SlabList → List ℕ,
    (∀ list, Linked s.next s.prev none ((s.caches c).slabs list) (lists list)) ∧
    (∀ list p, p ∈ lists list ↔
      s.IsSlab c p ∧ list = place (s.metaAt p).inuse (s.caches c).numObjects) ∧
    Counted (s.caches c) lists

variable {build : Build} {layouts : ℕ → SlabLayout} {w w' : SlabWorld} {s' : SlabHeap}
  {pool : Set ℕ} {c depth : ℕ} {error : MemError}

/-- The lists match the occupancy. -/
theorem Kept.listsMatch (kept : Kept w layouts pool) (c : ℕ) : ListsMatch w.heap c := by
  obtain ⟨free, chains, lists, sound, placed⟩ := kept
  refine ⟨fun list => lists (c, list), fun list => sound.shelved.shelves.family.linked (c, list),
    fun list p => ⟨fun member => ?_, ?_⟩, sound.shelved.counted c⟩
  · exact ⟨(sound.shelved.member c p).mpr ⟨list, member⟩,
      placed c list p member (Set.notMem_empty p)⟩
  · rintro ⟨slab, fits⟩
    obtain ⟨other, member⟩ := (sound.shelved.member c p).mp slab
    have same := placed c other p member (Set.notMem_empty p)
    rw [fits, ← same]
    exact member

/-- The free blocks of the buddy allocator are determined by the blocks in use. -/
theorem Sound.freeBlocks_eq {free free' chains chains' : ℕ → List ℕ}
    {lists lists' : ℕ × SlabList → List ℕ} (sound : Sound w layouts pool free chains lists)
    (sound' : Sound w' layouts pool free' chains' lists')
    (same : w'.blocks ∪ w'.heap.slabBlocks = w.blocks ∪ w.heap.slabBlocks) :
    BuddyPmm.freeBlocks w'.heap.buddy = BuddyPmm.freeBlocks w.heap.buddy := by
  have tiling := sound.stock.books.tiling
  have tiling' := sound'.stock.books.tiling
  rw [sound.stock.books.freelists.freeBlocks_eq, sound'.stock.books.freelists.freeBlocks_eq]
  apply tiling'.free_eq_of_area_eq tiling
  rw [tiling'.area_free_eq, tiling.area_free_eq, same]

/-- A failed call of `Alloc` changes neither the caches nor the set of free blocks. -/
theorem Kept.alloc_error (kept : Kept w layouts pool)
    (failed : (alloc build depth c).run w.heap = .ok (.error error) s')
    (notWraps : ¬ Wraps w.heap depth c) :
    Unmoved w.heap s' ∧ BuddyPmm.freeBlocks s'.buddy = BuddyPmm.freeBlocks w.heap.buddy := by
  obtain ⟨free, chains, lists, sound, placed⟩ := kept
  have outcome := sound.alloc placed build depth notWraps
  rw [failed] at outcome
  cases outcome with
  | error sound' unmoved =>
    refine ⟨unmoved, sound.freeBlocks_eq sound' ?_⟩
    rw [unmoved.sameSlabs.slabBlocks]

/-- `Alloc` returns when the chain of meta caches is not longer than the depth. -/
theorem Kept.alloc_returns (kept : Kept w layouts pool) (build : Build)
    (notWraps : ¬ Wraps w.heap depth c) (within : Within layouts depth c) :
    ∃ result s', (alloc build depth c).run w.heap = .ok result s' := by
  obtain ⟨free, chains, lists, sound, placed⟩ := kept
  have outcome := sound.alloc placed build depth notWraps
  generalize ran : (alloc build depth c).run w.heap = result at outcome
  cases outcome with
  | object => exact ⟨_, _, rfl⟩
  | error => exact ⟨_, _, rfl⟩
  | stuck tooDeep => exact (tooDeep within).elim

/-- While no use count wraps, the lists of every cache match the occupancy of its slabs, the calls
return, and a failed `Alloc` has no effect. -/
theorem slab_lists_match {start : SlabWorld} (started : Started build layouts start)
    (run : Run build start w) :
    (∀ c, ListsMatch w.heap c) ∧
      (∀ depth c, ¬ Wraps w.heap depth c → Within layouts depth c →
        ∃ result s', (alloc build depth c).run w.heap = .ok result s') ∧
      (∀ c, ∀ ptr ∈ w.live c, ∃ s', (free build c ptr).run w.heap = .ok () s') ∧
      ∀ depth c error s', ¬ Wraps w.heap depth c →
        (alloc build depth c).run w.heap = .ok (.error error) s' →
        Unmoved w.heap s' ∧
          BuddyPmm.freeBlocks s'.buddy = BuddyPmm.freeBlocks w.heap.buddy := by
  obtain ⟨pool, kept⟩ := started.kept run
  refine ⟨kept.listsMatch, fun depth c notWraps within => kept.alloc_returns build notWraps within,
    ?_, fun depth c error s' notWraps failed => kept.alloc_error failed notWraps⟩
  intro c ptr held
  obtain ⟨free, chains, lists, sound, placed⟩ := kept
  obtain ⟨s', _, _, ran, _⟩ := sound.freeObject placed held
  exact ⟨s', ran⟩

/-- One wide slab leaves no memory for another cache, whose `Alloc` changes nothing. -/
theorem slab_lists_match_one_slab : ∃ start w error s', Started .debug wide start ∧
    Run .debug start w ∧ ListsMatch w.heap 0 ∧
      (alloc .debug 1 1).run w.heap = .ok (.error error) s' ∧ Unmoved w.heap s' ∧
      BuddyPmm.freeBlocks s'.buddy = BuddyPmm.freeBlocks w.heap.buddy := by
  obtain ⟨start, w, started, run, k, _, _, filling⟩ := exists_filling
  obtain ⟨notWraps, error, s', failed⟩ := filling.exhausted
  obtain ⟨lists, _, _, clean⟩ := slab_lists_match started run
  exact ⟨start, w, error, s', started, run, lists 0, failed, clean 1 1 error s' notWraps failed⟩

/-- After 65536 calls of `Alloc` a slab without free objects is on the partial list. -/
theorem wrapped_slab_on_partial_list : ∃ start w, Started .debug wide start ∧
    Reaches .debug start w ∧ ¬ ListsMatch w.heap 0 := by
  obtain ⟨start, w, started, run, k, positive, small, filling⟩ := exists_filling
  obtain ⟨w', rest, full⟩ := filling.full .debug positive small
  obtain ⟨ptr, s', ran, _, caches, head, inuse, _⟩ := full.overflow .debug
  refine ⟨start, hand w' s' 0 ptr, started,
    (Run.reaches (run.trans rest)).tail ⟨.alloc 1 0, .alloc ran⟩, ?_⟩
  rintro ⟨lists, linked, member, _⟩
  have first : Linked s'.next s'.prev none ((s'.caches 0).slabs .partly) (lists .partly) :=
    linked .partly
  rw [head] at first
  obtain ⟨others, split, _⟩ := first.cons_of_head
  have here : 0 ∈ lists .partly := split ▸ List.mem_cons_self
  have fits : SlabList.partly = place (s'.metaAt 0).inuse (s'.caches 0).numObjects :=
    ((member .partly 0).mp here).2
  obtain ⟨_, _, _, _, _, _, sound, _⟩ := full
  rw [inuse, caches, congrArg SlabLayout.numObjects (sound.stock.layout 0)] at fits
  cases fits

end AlkOS.Mem.KmemCache
