import AlkOS.Mem.Buddy.Runs
import AlkOS.Mem.Slab.Freelist
import AlkOS.Mem.Slab.Lists

/-!
# Slabs, objects and freelist arrays

`Stock` ties the caches to the buddy allocator and to memory: every slab is a live
block, its freelist visits the objects that are not handed out, and the freelist arrays
of off-slab caches are objects of their meta caches.
-/

namespace AlkOS.Mem

open DyadicBlocks SlabLayout

/-- When a cache can work: objects and freelist fit the block, entries tell indices from the
sentinel, and the arrays of an off-slab cache fit the objects of its meta cache. -/
structure SlabLayout.Valid (layouts : ℕ → SlabLayout) (c : ℕ) : Prop where
  size : 0 < (layouts c).objSize
  objects : 0 < (layouts c).numObjects
  narrow : (layouts c).numObjects < 256 ^ (layouts c).metadataSize.bytes
  block : (layouts c).numObjects * (layouts c).objSize +
    (if (layouts c).isOffSlab then 0 else (layouts c).arraySize) ≤
      2 ^ (layouts c).blockOrder * kPageSizeBytes
  array : (layouts c).isOffSlab = true →
    ∃ m, (layouts c).metaCache = some m ∧ (layouts c).arraySize ≤ (layouts m).objSize

namespace SlabLayout.Valid

variable {layouts : ℕ → SlabLayout} {c : ℕ} (valid : Valid layouts c)
include valid

theorem arraySize_pos : 0 < (layouts c).arraySize :=
  Nat.mul_pos (bytes_pos _) (Nat.add_pos_left valid.objects _)

theorem onSlab (on : (layouts c).isOffSlab = false) :
    (layouts c).numObjects * (layouts c).objSize + (layouts c).arraySize ≤
      2 ^ (layouts c).blockOrder * kPageSizeBytes := by
  have fits := valid.block
  rwa [on] at fits

end SlabLayout.Valid

variable (s : SlabHeap)

namespace SlabHeap

/-- The frame is the first of a slab of the cache. -/
def IsSlab (c p : ℕ) : Prop :=
  p < s.buddy.pmt.numPageFrames ∧ (s.metaAt p).type = .slab ∧ (s.metaAt p).cache = some c ∧
    2 ^ (s.metaAt p).order ∣ p

/-- The blocks the slabs occupy. -/
def slabBlocks : Set Block :=
  { b | ∃ c, s.IsSlab c b.base ∧ b.order = (s.metaAt b.base).order }

/-- The address of an object. -/
def object (c p i : ℕ) : ℕ := (s.caches c).objAddr (pageFrameAddr p) i

/-- The address of the freelist array of a slab. -/
abbrev arrayBase (layout : SlabLayout) (p : ℕ) : ℕ :=
  layout.metaBase (pageFrameAddr p) (s.metaAt p).freelist

/-- The object of `m` is the freelist array of a slab. -/
def HoldsFreelist (m ptr : ℕ) : Prop :=
  ∃ c p, s.IsSlab c p ∧ (s.caches c).isOffSlab = true ∧ (s.caches c).metaCache = some m ∧
    (s.metaAt p).freelist = ptr

end SlabHeap

/-- The caches, the objects that clients hold, and other blocks of the buddy allocator. -/
structure SlabWorld where
  heap : SlabHeap
  live : ℕ → Set ℕ
  blocks : Set Block

namespace SlabWorld

/-- The object was handed out by the cache and not given back. -/
def Handed (w : SlabWorld) (c ptr : ℕ) : Prop := ptr ∈ w.live c ∨ w.heap.HoldsFreelist c ptr

end SlabWorld

namespace KmemCache

/-- The metadata and the freelist of one slab. -/
structure Record (layout : SlabLayout) (c p : ℕ) (chain : List ℕ) : Prop where
  pages : ∀ page ∈ (⟨p, layout.blockOrder⟩ : Block).pages, (s.metaAt page).type = .slab ∧
    (s.metaAt page).order = layout.blockOrder ∧ (s.metaAt page).cache = some c
  free : Freelist layout s.memory (layout.metaBase (pageFrameAddr p) (s.metaAt p).freelist)
    (s.metaAt p).freelist chain
  used : (s.metaAt p).inuse + chain.length = layout.numObjects
  small : (s.metaAt p).inuse < 2 ^ 16

/-- The state of all slabs, with the free indices of each. -/
structure Stock (w : SlabWorld) (layouts : ℕ → SlabLayout) (pool : Set ℕ) (free : ℕ → List ℕ)
    (chains : ℕ → List ℕ) : Prop where
  layout : ∀ c, (w.heap.caches c).toSlabLayout = layouts c
  valid : ∀ c, Valid layouts c
  books : BuddyPmm.Books w.heap.buddy pool free (w.blocks ∪ w.heap.slabBlocks)
  typed : BuddyPmm.Typed w.heap.buddy free ∅
  tagged : ∀ b ∈ w.blocks,
    (w.heap.metaAt b.base).type = .allocated ∧ (w.heap.metaAt b.base).order = b.order
  record : ∀ c p, w.heap.IsSlab c p → Record w.heap (layouts c) c p (chains p)
  owned : ∀ page < w.heap.buddy.pmt.numPageFrames, (w.heap.metaAt page).type = .slab →
    ∃ c p, w.heap.IsSlab c p ∧ page ∈ (⟨p, (layouts c).blockOrder⟩ : Block).pages
  handed : ∀ c ptr, w.Handed c ptr ↔ ∃ p i, w.heap.IsSlab c p ∧ i < (layouts c).numObjects ∧
    i ∉ chains p ∧ ptr = w.heap.object c p i
  apart : ∀ c, ∀ ptr ∈ w.live c, ¬ w.heap.HoldsFreelist c ptr
  single : ∀ c p d q, w.heap.IsSlab c p → w.heap.IsSlab d q → (layouts c).isOffSlab = true →
    (layouts d).isOffSlab = true → (w.heap.metaAt p).freelist = (w.heap.metaAt q).freelist → p = q

variable {w : SlabWorld} {layouts : ℕ → SlabLayout} {pool : Set ℕ} {free : ℕ → List ℕ}
  {chains : ℕ → List ℕ} {c d m p q r i j ptr : ℕ} {b : Block}

namespace Stock

theorem base_mem (p order : ℕ) : p ∈ (⟨p, order⟩ : Block).pages :=
  Block.base_mem_pages ⟨p, order⟩

theorem order_eq (stock : Stock w layouts pool free chains) (slab : w.heap.IsSlab c p) :
    (w.heap.metaAt p).order = (layouts c).blockOrder :=
  ((stock.record c p slab).pages p (base_mem _ _)).2.1

theorem cache_unique {s : SlabHeap} (left : s.IsSlab c p) (right : s.IsSlab d p) : c = d :=
  Option.some.inj (left.2.2.1.symm.trans right.2.2.1)

section

variable (stock : Stock w layouts pool free chains) (slab : w.heap.IsSlab c p)
include stock slab

/-- A slab occupies a live block. -/
theorem block_live : (⟨p, (layouts c).blockOrder⟩ : Block) ∈ w.blocks ∪ w.heap.slabBlocks :=
  Or.inr ⟨c, slab, (stock.order_eq slab).symm⟩

/-- The bytes of a slab's block lie in the address space. -/
theorem bytes_inside :
    p * kPageSizeBytes + 2 ^ (layouts c).blockOrder * kPageSizeBytes ≤ 2 ^ 64 := by
  have inside := Nat.mul_le_mul_right kPageSizeBytes
    (stock.books.live_below (stock.block_live slab))
  rw [Nat.add_mul] at inside
  exact inside.trans w.heap.buddy.pmt.addressable

end

theorem pageFrameAddr_eq (slab : w.heap.IsSlab c p) : pageFrameAddr p = p * kPageSizeBytes :=
  pageFrameAddr_div slab.1

section

variable (stock : Stock w layouts pool free chains)
include stock

/-- Different slabs occupy different bytes. -/
theorem slabs_disjoint (left : w.heap.IsSlab c p) (right : w.heap.IsSlab d q) (differ : p ≠ q) :
    p * kPageSizeBytes + 2 ^ (layouts c).blockOrder * kPageSizeBytes ≤ q * kPageSizeBytes ∨
      q * kPageSizeBytes + 2 ^ (layouts d).blockOrder * kPageSizeBytes ≤ p * kPageSizeBytes := by
  rw [← Nat.add_mul, ← Nat.add_mul]
  have frames := Block.apart_of_no_common (b := ⟨p, (layouts c).blockOrder⟩)
    (c := ⟨q, (layouts d).blockOrder⟩) fun page here there =>
      differ (congrArg Block.base (stock.books.live_eq (stock.block_live left)
        (stock.block_live right) here there))
  exact frames.imp (Nat.mul_le_mul_right _) (Nat.mul_le_mul_right _)

/-- A block of another client and a slab occupy different bytes. -/
theorem block_disjoint (member : b ∈ w.blocks) (slab : w.heap.IsSlab c p) :
    (b.base + 2 ^ b.order) * kPageSizeBytes ≤ p * kPageSizeBytes ∨
      p * kPageSizeBytes + 2 ^ (layouts c).blockOrder * kPageSizeBytes ≤
        b.base * kPageSizeBytes := by
  rw [← Nat.add_mul]
  have frames := Block.apart_of_no_common (b := b) (c := ⟨p, (layouts c).blockOrder⟩)
    fun page here there => by
      have same := stock.books.live_eq (Or.inl member) (stock.block_live slab) here there
      have allocated := (stock.tagged b member).1
      rw [show b.base = p from congrArg Block.base same, slab.2.1] at allocated
      cases allocated
  exact frames.imp (Nat.mul_le_mul_right _) (Nat.mul_le_mul_right _)

/-- An object's address, and the bytes of the objects in front of it. -/
theorem object_eq (slab : w.heap.IsSlab c p) (inside : i < (layouts c).numObjects) :
    w.heap.object c p i = p * kPageSizeBytes + i * (layouts c).objSize ∧
      (i + 1) * (layouts c).objSize ≤ (layouts c).numObjects * (layouts c).objSize := by
  have upto := Nat.mul_le_mul_right (layouts c).objSize (Nat.succ_le_of_lt inside)
  refine ⟨?_, upto⟩
  have fits := (stock.valid c).block
  have below := stock.bytes_inside slab
  have size := (stock.valid c).size
  unfold SlabHeap.object objAddr
  rw [stock.layout c, pageFrameAddr_eq slab]
  rw [Nat.succ_mul] at upto
  omega

/-- The array of an on-slab cache stands right behind the objects. -/
theorem onSlab_base (slab : w.heap.IsSlab c p) (on : (layouts c).isOffSlab = false) :
    w.heap.arrayBase (layouts c) p =
      p * kPageSizeBytes + (layouts c).numObjects * (layouts c).objSize := by
  have fits := (stock.valid c).onSlab on
  have below := stock.bytes_inside slab
  have nonempty := (stock.valid c).arraySize_pos
  unfold SlabHeap.arrayBase metaBase
  rw [on, pageFrameAddr_eq slab]
  exact Nat.mod_eq_of_lt (by omega)

end

theorem arrayBase_offSlab {layout : SlabLayout} (off : layout.isOffSlab = true) (p : ℕ) :
    s.arrayBase layout p = (s.metaAt p).freelist := if_pos off

/-- The array of an off-slab cache is an object of the meta cache. -/
theorem array_object (stock : Stock w layouts pool free chains) (slab : w.heap.IsSlab c p)
    (off : (layouts c).isOffSlab = true) :
    ∃ m r i, w.heap.IsSlab m r ∧ i < (layouts m).numObjects ∧
      (w.heap.metaAt p).freelist = w.heap.object m r i ∧
      (layouts c).arraySize ≤ (layouts m).objSize ∧
      w.heap.HoldsFreelist m (w.heap.metaAt p).freelist := by
  obtain ⟨m, meta_eq, fits⟩ := (stock.valid c).array off
  have holds : w.heap.HoldsFreelist m (w.heap.metaAt p).freelist := by
    refine ⟨c, p, slab, ?_⟩
    rw [stock.layout c]
    exact ⟨off, meta_eq, rfl⟩
  obtain ⟨r, i, owner, inside, _, address⟩ := (stock.handed m _).mp (Or.inr holds)
  exact ⟨m, r, i, owner, inside, address, fits, holds⟩

section

variable (stock : Stock w layouts pool free chains) (left : w.heap.IsSlab c p)
  (right : w.heap.IsSlab d q) (hi : i < (layouts c).numObjects)
include stock left right hi

/-- Different objects occupy different bytes. -/
theorem objects_disjoint (hj : j < (layouts d).numObjects) (differ : ¬ (p = q ∧ i = j)) :
    w.heap.object c p i + (layouts c).objSize ≤ w.heap.object d q j ∨
      w.heap.object d q j + (layouts d).objSize ≤ w.heap.object c p i := by
  obtain ⟨atI, uptoI⟩ := stock.object_eq left hi
  obtain ⟨atJ, uptoJ⟩ := stock.object_eq right hj
  rw [Nat.succ_mul] at uptoI uptoJ
  have fitsC := (stock.valid c).block
  have fitsD := (stock.valid d).block
  by_cases same : p = q
  · subst same
    cases cache_unique left right
    rcases Nat.lt_or_gt_of_ne (fun eq => differ ⟨rfl, eq⟩) with less | more
    · have := Nat.mul_le_mul_right (layouts c).objSize (Nat.succ_le_of_lt less)
      rw [Nat.succ_mul] at this
      omega
    · have := Nat.mul_le_mul_right (layouts c).objSize (Nat.succ_le_of_lt more)
      rw [Nat.succ_mul] at this
      omega
  · have := stock.slabs_disjoint left right same
    omega

theorem object_injective (hj : j < (layouts d).numObjects)
    (same : w.heap.object c p i = w.heap.object d q j) : p = q ∧ i = j := by
  by_contra differ
  have sizeC := (stock.valid c).size
  have sizeD := (stock.valid d).size
  have := stock.objects_disjoint left right hi hj differ
  omega

/-- An object and the array behind the objects occupy different bytes. -/
theorem object_disjoint_onSlab (on : (layouts d).isOffSlab = false) :
    w.heap.object c p i + (layouts c).objSize ≤ w.heap.arrayBase (layouts d) q ∨
      w.heap.arrayBase (layouts d) q + (layouts d).arraySize ≤ w.heap.object c p i := by
  obtain ⟨atI, uptoI⟩ := stock.object_eq left hi
  rw [Nat.succ_mul] at uptoI
  have fitsC := (stock.valid c).block
  have fitsD := (stock.valid d).onSlab on
  rw [stock.onSlab_base right on]
  by_cases same : p = q
  · subst same
    cases cache_unique left right
    omega
  · have := stock.slabs_disjoint left right same
    omega

end

section

variable (stock : Stock w layouts pool free chains)
include stock

/-- The arrays of different slabs occupy different bytes. -/
theorem arrays_disjoint (left : w.heap.IsSlab c p) (right : w.heap.IsSlab d q) (differ : p ≠ q) :
    w.heap.arrayBase (layouts c) p + (layouts c).arraySize ≤ w.heap.arrayBase (layouts d) q ∨
      w.heap.arrayBase (layouts d) q + (layouts d).arraySize ≤ w.heap.arrayBase (layouts c) p := by
  cases onC : (layouts c).isOffSlab with
  | false =>
    cases onD : (layouts d).isOffSlab with
    | false =>
      have fitsC := (stock.valid c).onSlab onC
      have fitsD := (stock.valid d).onSlab onD
      have := stock.slabs_disjoint left right differ
      rw [stock.onSlab_base left onC, stock.onSlab_base right onD]
      omega
    | true =>
      obtain ⟨m, r, i, owner, inside, address, fits, _⟩ := stock.array_object right onD
      rw [arrayBase_offSlab _ onD]
      have := stock.object_disjoint_onSlab owner left inside onC
      omega
  | true =>
    obtain ⟨m, r, i, owner, inside, address, fits, _⟩ := stock.array_object left onC
    rw [arrayBase_offSlab _ onC]
    cases onD : (layouts d).isOffSlab with
    | false =>
      have := stock.object_disjoint_onSlab owner right inside onD
      omega
    | true =>
      obtain ⟨m', r', i', owner', inside', address', fits', _⟩ :=
        stock.array_object right onD
      rw [arrayBase_offSlab _ onD]
      have apart : ¬ (r = r' ∧ i = i') := by
        rintro ⟨rfl, rfl⟩
        cases cache_unique owner owner'
        exact differ (stock.single c p d q left right onC onD (address.trans address'.symm))
      have := stock.objects_disjoint owner owner' inside inside' apart
      omega

/-- An object held by a client and a freelist array occupy different bytes. -/
theorem live_disjoint_array (held : ptr ∈ w.live c) (right : w.heap.IsSlab d q) :
    ptr + (layouts c).objSize ≤ w.heap.arrayBase (layouts d) q ∨
      w.heap.arrayBase (layouts d) q + (layouts d).arraySize ≤ ptr := by
  obtain ⟨p, i, left, inside, _, rfl⟩ := (stock.handed c ptr).mp (Or.inl held)
  cases onD : (layouts d).isOffSlab with
  | false => exact stock.object_disjoint_onSlab left right inside onD
  | true =>
    obtain ⟨m, r, j, owner, there, address, fits, holds⟩ := stock.array_object right onD
    rw [arrayBase_offSlab _ onD]
    have apart : ¬ (p = r ∧ i = j) := by
      rintro ⟨rfl, rfl⟩
      cases cache_unique left owner
      rw [address] at holds
      exact stock.apart c _ held holds
    have := stock.objects_disjoint left owner inside there apart
    omega

/-- A freelist array lies in the block of some slab. -/
theorem array_in_slab (slab : w.heap.IsSlab c p) :
    ∃ m r, w.heap.IsSlab m r ∧
      r * kPageSizeBytes ≤ w.heap.arrayBase (layouts c) p ∧
      w.heap.arrayBase (layouts c) p + (layouts c).arraySize ≤
        r * kPageSizeBytes + 2 ^ (layouts m).blockOrder * kPageSizeBytes := by
  cases on : (layouts c).isOffSlab with
  | false =>
    have fits := (stock.valid c).onSlab on
    rw [stock.onSlab_base slab on]
    exact ⟨c, p, slab, by omega, by omega⟩
  | true =>
    obtain ⟨m, r, i, owner, inside, address, fits, _⟩ := stock.array_object slab on
    obtain ⟨atI, upto⟩ := stock.object_eq owner inside
    have blockFits := (stock.valid m).block
    rw [Nat.succ_mul] at upto
    rw [arrayBase_offSlab _ on]
    exact ⟨m, r, owner, by omega, by omega⟩

/-- The freelist of every slab has room for its entries. -/
theorem room (slab : w.heap.IsSlab c p) :
    Room (layouts c) (w.heap.arrayBase (layouts c) p) := by
  obtain ⟨m, r, owner, _, upto⟩ := stock.array_in_slab slab
  exact ⟨upto.trans (stock.bytes_inside owner), (stock.valid c).narrow⟩

end

theorem based (layout : SlabLayout) (slabBase freelist : ℕ) :
    Freelist.Based layout (layout.metaBase slabBase freelist) freelist :=
  fun off => if_pos off

end Stock

end KmemCache

end AlkOS.Mem
