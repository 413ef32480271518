import AlkOS.Mem.Buddy.Detection
import AlkOS.Mem.Slab.Growth

/-!
# Runs of the slab caches

A run starts when all caches of an initialised buddy allocator have been through `Init`.
It goes on with calls of `Alloc` and `Free`, with calls of other clients of the buddy
allocator, and with writes to memory that clients hold.
-/

namespace AlkOS.Mem.KmemCache

open DyadicBlocks SlabLayout SlabHeap

/-- What happens between two states. -/
inductive Op where
  | alloc (depth c : ℕ)
  | free (c ptr : ℕ)
  | allocBlock (order : ℕ)
  | freeBlock (base : ℕ)
  | write

/-- The address belongs to an object or a block that a client holds. -/
def Holds (w : SlabWorld) (address : ℕ) : Prop :=
  (∃ c, ∃ ptr ∈ w.live c, ptr ≤ address ∧ address < ptr + (w.heap.caches c).objSize) ∨
    ∃ b ∈ w.blocks, b.base * kPageSizeBytes ≤ address ∧
      address < (b.base + 2 ^ b.order) * kPageSizeBytes

/-- One returning call, or one write. -/
inductive Step (build : Build) : Op → SlabWorld → SlabWorld → Prop where
  | alloc {w : SlabWorld} {depth c ptr : ℕ} {s' : SlabHeap} :
      (alloc build depth c).run w.heap = .ok (.ok ptr) s' →
      Step build (.alloc depth c) w (hand w s' c ptr)
  | allocFails {w : SlabWorld} {depth c : ℕ} {error : MemError} {s' : SlabHeap} :
      (alloc build depth c).run w.heap = .ok (.error error) s' →
      Step build (.alloc depth c) w ⟨s', w.live, w.blocks⟩
  | free {w : SlabWorld} {c ptr : ℕ} {s' : SlabHeap} : ptr ∈ w.live c →
      (free build c ptr).run w.heap = .ok () s' →
      Step build (.free c ptr) w (giveBack w s' c ptr)
  | allocBlock {w : SlabWorld} {order page : ℕ} {buddy : BuddyPmm} :
      (BuddyPmm.alloc build order).run w.heap.buddy = .ok (.ok page) buddy →
      Step build (.allocBlock order) w
        ⟨{ w.heap with buddy := buddy }, w.live, insert ⟨page / kPageSizeBytes, order⟩ w.blocks⟩
  | allocBlockFails {w : SlabWorld} {order : ℕ} {error : MemError} {buddy : BuddyPmm} :
      (BuddyPmm.alloc build order).run w.heap.buddy = .ok (.error error) buddy →
      Step build (.allocBlock order) w ⟨{ w.heap with buddy := buddy }, w.live, w.blocks⟩
  | freeBlock {w : SlabWorld} {b : Block} {buddy : BuddyPmm} : b ∈ w.blocks →
      (BuddyPmm.free build (pageFrameAddr b.base)).run w.heap.buddy = .ok () buddy →
      Step build (.freeBlock b.base) w
        ⟨{ w.heap with buddy := buddy }, w.live, w.blocks \ {b}⟩
  | write {w : SlabWorld} {memory : Bytes} :
      (∀ address, ¬ Holds w address → memory address = w.heap.memory address) →
      Step build .write w ⟨{ w.heap with memory := memory }, w.live, w.blocks⟩

/-- The call takes an object of a slab whose use count is about to wrap. -/
def Op.Wraps (s : SlabHeap) : Op → Prop
  | .alloc depth c => KmemCache.Wraps s depth c
  | _ => False

/-- Any number of steps. -/
def Reaches (build : Build) : SlabWorld → SlabWorld → Prop :=
  Relation.ReflTransGen fun w w' => ∃ op, Step build op w w'

/-- Any number of steps, none of which wraps a use count. -/
def Run (build : Build) : SlabWorld → SlabWorld → Prop :=
  Relation.ReflTransGen fun w w' => ∃ op, Step build op w w' ∧ ¬ op.Wraps w.heap

theorem Run.reaches {build : Build} {w w' : SlabWorld} (run : Run build w w') :
    Reaches build w w' := by
  induction run with
  | refl => exact .refl
  | tail _ step ih =>
    obtain ⟨op, step, _⟩ := step
    exact ih.tail ⟨op, step⟩

/-- The caches after `Init` with the given configurations, over a buddy allocator in
use. -/
structure Started (build : Build) (layouts : ℕ → SlabLayout) (w : SlabWorld) : Prop where
  valid : ∀ c, Valid layouts c
  caches : ∀ c, w.heap.caches c = initialised (layouts c).objSize (layouts c).blockOrder
    (layouts c).numObjects (layouts c).metadataSize (layouts c).isOffSlab (layouts c).metaCache
  live : ∀ c, w.live c = ∅
  buddy : ∃ bPmm pmt pageLimit s s', (BuddyPmm.init build bPmm pmt pageLimit).run s =
    .ok () s' ∧ BuddyPmm.Run build ⟨s', ∅⟩ ⟨w.heap.buddy, w.blocks⟩

variable {build : Build} {layouts : ℕ → SlabLayout} {w w' : SlabWorld} {pool : Set ℕ}
  {free chains : ℕ → List ℕ} {lists : ℕ × SlabList → List ℕ} {c depth : ℕ} {op : Op}
  {bPmm : BitmapPmm} {pmt : PageMetaTable} {pageLimit : ℕ} {s s' : BuddyPmm}

/-- No frame carries the tag of a slab before the caches are used. -/
theorem Started.no_slab (started : Started build layouts w) {page : ℕ}
    (inside : page < w.heap.buddy.pmt.numPageFrames) : (w.heap.metaAt page).type ≠ .slab := by
  obtain ⟨bPmm, pmt, pageLimit, s, s', ran, run⟩ := started.buddy
  obtain ⟨retiredBy, booted⟩ := BuddyPmm.exists_booted ran
  obtain ⟨after, history⟩ := BuddyPmm.History.of_run run
  obtain ⟨tags, lists, consistent, _⟩ := booted.tags history
  intro slab
  by_cases heads : BuddyPmm.Held.Heads ⟨w.heap.buddy, w.blocks⟩ page
  · rcases consistent.heads_iff.mp heads with ⟨k, listed⟩ | ⟨order, held⟩
    · have type := (consistent.books.freelists.tagged k page listed).1
      cases type.symm.trans slab
    · have type := consistent.tagged _ held
      cases type.symm.trans slab
  · rcases tags page inside heads with ⟨type, _⟩ | ⟨type, _⟩
    · cases type.symm.trans slab
    · cases type.symm.trans slab

theorem Started.no_blocks (started : Started build layouts w) : w.heap.slabBlocks = ∅ := by
  refine Set.eq_empty_of_forall_notMem ?_
  rintro b ⟨c, slab, _⟩
  exact started.no_slab slab.1 slab.2.1

/-- The bookkeeping is right when the caches have no slabs yet. -/
theorem Started.sound (started : Started build layouts w)
    (ran : (BuddyPmm.init build bPmm pmt pageLimit).run s = .ok () s')
    (run : BuddyPmm.Run build ⟨s', ∅⟩ ⟨w.heap.buddy, w.blocks⟩) :
    ∃ free, Sound w layouts (BuddyPmm.handedOver bPmm pageLimit pmt.totalPages) free (fun _ => [])
      (fun _ => []) ∧ Placed w.heap (fun _ => []) ∅ := by
  obtain ⟨free, consistent, _⟩ := BuddyPmm.consistent_of_init ran run
  have noSlab : ∀ c p, ¬ w.heap.IsSlab c p := fun c p slab => started.no_slab slab.1 slab.2.1
  have noArrays : ∀ c ptr, ¬ w.heap.HoldsFreelist c ptr := by
    rintro c ptr ⟨d, p, slab, _⟩
    exact noSlab d p slab
  refine ⟨free, ⟨⟨fun c => ?_, started.valid, ?_, consistent.typed, fun b member =>
    ⟨consistent.tagged b member, consistent.order b member⟩, fun c p slab =>
    (noSlab c p slab).elim, fun page inside slab => (started.no_slab inside slab).elim, ?_, ?_,
    fun c p d q left => (noSlab c p left).elim⟩, ⟨⟨⟨fun key => ?_, fun member => ?_⟩, ?_⟩, ?_, ?_⟩⟩,
    ?_⟩
  · rw [started.caches c]
    rfl
  · rw [started.no_blocks, Set.union_empty]
    exact consistent.books
  · intro c ptr
    refine iff_of_false ?_ ?_
    · rintro (held | holds)
      · rw [started.live c] at held
        exact held
      · exact noArrays c ptr holds
    · rintro ⟨p, i, slab, _⟩
      exact noSlab c p slab
  · intro c ptr held
    rw [started.live c] at held
    exact held.elim
  · change (w.heap.caches key.1).slabs key.2 = none
    rw [started.caches]
    rfl
  · exact (List.not_mem_nil member).elim
  · exact fun key p member => (List.not_mem_nil member).elim
  · exact fun c p => iff_of_false (noSlab c p) fun ⟨_, member⟩ => List.not_mem_nil member
  · intro c
    rw [started.caches c]
    exact ⟨rfl, rfl, rfl⟩
  · exact fun c list p member => (List.not_mem_nil member).elim

/-- The bookkeeping of a state of a run. -/
def Kept (w : SlabWorld) (layouts : ℕ → SlabLayout) (pool : Set ℕ) : Prop :=
  ∃ free chains lists, Sound w layouts pool free chains lists ∧ Placed w.heap lists ∅

/-- Every step that wraps no use count keeps the bookkeeping. -/
theorem Kept.step (kept : Kept w layouts pool) (step : Step build op w w')
    (notWraps : ¬ op.Wraps w.heap) : Kept w' layouts pool := by
  obtain ⟨free, chains, lists, sound, placed⟩ := kept
  cases step with
  | @alloc _ depth c ptr s' ran =>
    have outcome := sound.alloc placed build depth notWraps
    rw [ran] at outcome
    cases outcome with
    | object sound' placed' _ _ => exact ⟨_, _, _, sound', placed'⟩
  | @allocFails _ depth c error s' ran =>
    have outcome := sound.alloc placed build depth notWraps
    rw [ran] at outcome
    cases outcome with
    | error sound' unmoved =>
      exact ⟨_, _, _, sound', placed.unmoved sound.shelved unmoved⟩
  | @free _ c ptr s' held ran =>
    obtain ⟨s'', chains', lists', ran', sound', placed'⟩ := sound.freeObject placed held
    cases ran'.symm.trans ran
    exact ⟨_, _, _, sound', placed'⟩
  | @allocBlock _ order page buddy ran =>
    rcases sound.allocBlock build order with
      ⟨buddy', free', pfn, ran', unmoved, sound', _⟩ | ⟨error, ran'⟩
    · cases ran'.symm.trans ran
      rw [pageFrameAddr_number (sound'.stock.books.live_inside
        (Or.inl (Set.mem_insert _ _)) (Block.base_mem_pages ⟨pfn, order⟩))]
      exact ⟨_, _, _, sound', placed.unmoved sound.shelved unmoved⟩
    · cases ran'.symm.trans ran
  | @allocBlockFails _ order error buddy ran =>
    rcases sound.allocBlock build order with ⟨buddy', free', pfn, ran', _⟩ | ⟨error, ran'⟩
    · cases ran'.symm.trans ran
    · cases ran'.symm.trans ran
      exact ⟨_, _, _, sound, placed⟩
  | @freeBlock _ b buddy member ran =>
    obtain ⟨buddy', free', ran', unmoved, sound'⟩ := sound.freeBlock build member
    cases ran'.symm.trans ran
    exact ⟨_, _, _, sound', placed.unmoved sound.shelved unmoved⟩
  | @write _ memory outside =>
    refine ⟨_, _, _, ⟨sound.stock.scribble memory fun c p slab address lower upper => ?_,
      sound.shelved.congr rfl (fun _ _ => ⟨rfl, rfl⟩) rfl⟩, placed⟩
    apply outside
    rintro (⟨d, ptr, held, start, stop⟩ | ⟨b, member, start, stop⟩)
    · rw [sound.stock.layout d] at stop
      rcases sound.stock.live_disjoint_array held slab with before | behind
      · omega
      · omega
    · obtain ⟨m, r, owner, first, last⟩ := sound.stock.array_in_slab slab
      rcases sound.stock.block_disjoint member owner with before | behind
      · omega
      · omega

theorem Kept.run (kept : Kept w layouts pool) (run : Run build w w') : Kept w' layouts pool := by
  induction run with
  | refl => exact kept
  | tail _ step ih =>
    obtain ⟨op, step, notWraps⟩ := step
    exact ih.step step notWraps

theorem Started.kept (started : Started build layouts w) (run : Run build w w') :
    ∃ pool, Kept w' layouts pool := by
  obtain ⟨bPmm, pmt, pageLimit, s, s', ran, before⟩ := started.buddy
  obtain ⟨free, sound, placed⟩ := started.sound ran before
  exact ⟨_, Kept.run ⟨free, _, _, sound, placed⟩ run⟩

/-- Few objects cannot wrap a use count. -/
theorem not_wraps_of_few {s : SlabHeap} (few : ∀ c, (s.caches c).numObjects < 2 ^ 16) :
    ¬ KmemCache.Wraps s depth c := by
  induction depth generalizing c with
  | zero => exact id
  | succ depth ih =>
    unfold KmemCache.Wraps
    cases (s.caches c).slabs .partly with
    | some slab => exact fun both => absurd (few c) (Nat.not_lt.mpr both.2)
    | none =>
      cases (s.caches c).slabs .free with
      | some slab => exact id
      | none =>
        rintro ⟨-, m, -, wraps⟩
        exact ih wraps

/-- Caches with fewer than 65536 objects in a slab never wrap a use count. -/
theorem Started.run_of_few (started : Started build layouts w)
    (few : ∀ c, (layouts c).numObjects < 2 ^ 16) (reaches : Reaches build w w') :
    Run build w w' := by
  induction reaches with
  | refl => exact .refl
  | tail _ step ih =>
    obtain ⟨op, step⟩ := step
    obtain ⟨pool, free, chains, lists, sound, _⟩ := started.kept ih
    refine ih.tail ⟨op, step, ?_⟩
    cases op with
    | alloc depth c =>
      exact not_wraps_of_few fun d => by
        rw [sound.stock.layout d]
        exact few d
    | free c ptr => exact id
    | allocBlock order => exact id
    | freeBlock base => exact id
    | write => exact id

/-- The caches right after `Init`, over a buddy allocator nobody uses yet. -/
def fresh (layouts : ℕ → SlabLayout) (buddy : BuddyPmm) : SlabWorld where
  heap :=
    { buddy := buddy
      memory := fun _ => 0
      caches := fun c => initialised (layouts c).objSize (layouts c).blockOrder
        (layouts c).numObjects (layouts c).metadataSize (layouts c).isOffSlab
          (layouts c).metaCache }
  live := fun _ => ∅
  blocks := ∅

theorem started_fresh (valid : ∀ c, Valid layouts c)
    (ran : (BuddyPmm.init build bPmm pmt pageLimit).run s = .ok () s') :
    Started build layouts (fresh layouts s') :=
  ⟨valid, fun _ => rfl, fun _ => rfl, bPmm, pmt, pageLimit, s, s', ran, .refl⟩

/-- Before anyone uses the allocator, the whole pool is free. -/
theorem Sound.area_free_fresh {buddy : BuddyPmm}
    (sound : Sound (fresh layouts buddy) layouts pool free chains lists)
    (started : Started build layouts (fresh layouts buddy)) :
    Block.area (BuddyPmm.blocksOf free) = pool := by
  rw [sound.stock.books.tiling.area_free_eq, started.no_blocks]
  refine sdiff_eq_left.mpr (Set.disjoint_left.mpr fun page _ used => ?_)
  obtain ⟨b, member, _⟩ := Block.mem_area.mp used
  rcases member with held | slab
  · exact held
  · exact slab

end AlkOS.Mem.KmemCache
