import AlkOS.Mem.Slab.Stock

/-!
# What keeps the stock of slabs

Four ways of changing a state with a `Stock`: changes away from the slabs,
rewriting the freelist of one slab, and turning a block into a slab, with the
objects handed out or given back along the way.
-/

namespace AlkOS.Mem.KmemCache

open DyadicBlocks SlabLayout

variable {w w' : SlabWorld} {s s' : SlabHeap} {layouts : ℕ → SlabLayout} {pool : Set ℕ}
  {free chains : ℕ → List ℕ} {c d m p q i ptr : ℕ} {b : Block} {chain : List ℕ}

theorem object_congr
    (same : ∀ c, (s'.caches c).toSlabLayout = (s.caches c).toSlabLayout) :
    s'.object = s.object := by
  funext c p i
  unfold SlabHeap.object
  rw [same c]

/-- The same frames are slabs, and the same objects hold their arrays. -/
structure SameSlabs (s s' : SlabHeap) : Prop where
  layout : ∀ c, (s'.caches c).toSlabLayout = (s.caches c).toSlabLayout
  isSlab : s'.IsSlab = s.IsSlab
  order : ∀ c p, s.IsSlab c p → (s'.metaAt p).order = (s.metaAt p).order
  freelist : ∀ c p, s.IsSlab c p → (s.caches c).isOffSlab = true →
    (s'.metaAt p).freelist = (s.metaAt p).freelist

namespace SameSlabs

/-- The slabs are known from the tags of their frames. -/
theorem of_kept (layout : ∀ c, (s'.caches c).toSlabLayout = (s.caches c).toSlabLayout)
    (total : s'.buddy.pmt.numPageFrames = s.buddy.pmt.numPageFrames)
    (types : ∀ page < s.buddy.pmt.numPageFrames, (s'.metaAt page).type = .slab →
      (s.metaAt page).type = .slab)
    (kept : ∀ page, (s.metaAt page).type = .slab → s'.metaAt page =
      { s.metaAt page with next := s'.next page, prev := s'.prev page }) : SameSlabs s s' := by
  refine ⟨layout, funext₂ fun c p => propext ?_, fun _ p slab => ?_, fun _ p slab _ => ?_⟩
  · unfold SlabHeap.IsSlab
    rw [total]
    constructor
    · rintro ⟨inside, slab, rest⟩
      have before := types p inside slab
      rw [kept p before] at rest
      exact ⟨inside, before, rest⟩
    · rintro ⟨inside, slab, rest⟩
      rw [kept p slab]
      exact ⟨inside, slab, rest⟩
  · rw [kept p slab.2.1]
  · rw [kept p slab.2.1]

variable (same : SameSlabs s s')
include same

theorem slabBlocks : s'.slabBlocks = s.slabBlocks := by
  ext b
  unfold SlabHeap.slabBlocks
  rw [same.isSlab]
  constructor
  · rintro ⟨c, slab, order⟩
    exact ⟨c, slab, order.trans (same.order c b.base slab)⟩
  · rintro ⟨c, slab, order⟩
    exact ⟨c, slab, order.trans (same.order c b.base slab).symm⟩

theorem holdsFreelist : s'.HoldsFreelist = s.HoldsFreelist := by
  funext m ptr
  apply propext
  unfold SlabHeap.HoldsFreelist
  rw [same.isSlab]
  constructor
  · rintro ⟨c, p, slab, off, used, rfl⟩
    rw [same.layout c] at off used
    exact ⟨c, p, slab, off, used, (same.freelist c p slab off).symm⟩
  · rintro ⟨c, p, slab, off, used, rfl⟩
    refine ⟨c, p, slab, ?_⟩
    rw [same.layout c]
    exact ⟨off, used, same.freelist c p slab off⟩

end SameSlabs

/-- The freelist and the use count of one frame were set. -/
structure Retouched (s s' : SlabHeap) (p freelist inuse : ℕ) : Prop where
  total : s'.buddy.pmt.numPageFrames = s.buddy.pmt.numPageFrames
  metas : ∀ page, s'.metaAt page = if page = p then
    { s.metaAt p with freelist := freelist, inuse := inuse } else s.metaAt page

namespace Retouched

variable {freelist inuse : ℕ} (retouched : Retouched s s' p freelist inuse)
include retouched

theorem here : s'.metaAt p = { s.metaAt p with freelist := freelist, inuse := inuse } := by
  rw [retouched.metas p, if_pos rfl]

theorem elsewhere (page : ℕ) (other : page ≠ p) : s'.metaAt page = s.metaAt page := by
  rw [retouched.metas page, if_neg other]

/-- All other fields are kept. -/
theorem kept (page : ℕ) : s'.metaAt page = { s.metaAt page with
    freelist := (s'.metaAt page).freelist, inuse := (s'.metaAt page).inuse } := by
  rw [retouched.metas page]
  split_ifs with same
  · rw [same]
  · rfl

theorem isSlab : s'.IsSlab = s.IsSlab := by
  funext c q
  unfold SlabHeap.IsSlab
  rw [retouched.total, retouched.kept q]

/-- A slab whose array is on another one keeps its freelist. -/
theorem sameSlabs (layout : ∀ d, (s'.caches d).toSlabLayout = (s.caches d).toSlabLayout)
    (slab : s.IsSlab c p)
    (offKeeps : (s.caches c).isOffSlab = true → freelist = (s.metaAt p).freelist) :
    SameSlabs s s' := by
  refine ⟨layout, retouched.isSlab, fun _ q _ => by rw [retouched.kept q], fun d q other off => ?_⟩
  by_cases same : q = p
  · subst same
    cases Stock.cache_unique slab other
    rw [retouched.here]
    exact offKeeps off
  · rw [retouched.elsewhere q same]

end Retouched

/-- The objects that hold freelist arrays still do. -/
def KeepsArrays (s s' : SlabHeap) : Prop := ∀ m ptr, s.HoldsFreelist m ptr → s'.HoldsFreelist m ptr

namespace KeepsArrays

theorem refl : KeepsArrays s s := fun _ _ holds => holds

theorem trans {s'' : SlabHeap} (first : KeepsArrays s s') (second : KeepsArrays s' s'') :
    KeepsArrays s s'' := fun m ptr holds => second m ptr (first m ptr holds)

theorem of_same (same : SameSlabs s s') : KeepsArrays s s' := by
  intro m ptr holds
  rw [same.holdsFreelist]
  exact holds

end KeepsArrays

/-- A slab is intact while the tags of its frames, its freelist and its use count are. -/
theorem Record.congr {layout : SlabLayout} (record : Record s layout c p chain)
    (room : Room layout (s.arrayBase layout p))
    (tags : ∀ page ∈ (⟨p, layout.blockOrder⟩ : Block).pages,
      (s'.metaAt page).type = (s.metaAt page).type ∧
      (s'.metaAt page).order = (s.metaAt page).order ∧
      (s'.metaAt page).cache = (s.metaAt page).cache)
    (freelist : (s'.metaAt p).freelist = (s.metaAt p).freelist)
    (inuse : (s'.metaAt p).inuse = (s.metaAt p).inuse)
    (memory : ∀ address, s.arrayBase layout p ≤ address →
      address < s.arrayBase layout p + layout.arraySize → s'.memory address = s.memory address) :
    Record s' layout c p chain := by
  refine ⟨fun page here => ?_, ?_, ?_, ?_⟩
  · obtain ⟨type, order, cache⟩ := tags page here
    rw [type, order, cache]
    exact record.pages page here
  · rw [freelist]
    exact record.free.congr room (Stock.based _ _ _) memory
  · rw [inuse]
    exact record.used
  · rw [inuse]
    exact record.small

namespace Stock

section

variable (stock : Stock w layouts pool free chains)
include stock

/-- Changes that keep the slabs, with the records and the objects handed out to match. -/
theorem change (same : SameSlabs w.heap w'.heap)
    (types : ∀ page < w'.heap.buddy.pmt.numPageFrames, (w'.heap.metaAt page).type = .slab →
      page < w.heap.buddy.pmt.numPageFrames ∧ (w.heap.metaAt page).type = .slab)
    (books : BuddyPmm.Books w'.heap.buddy pool free' (w'.blocks ∪ w.heap.slabBlocks))
    (typed : BuddyPmm.Typed w'.heap.buddy free' ∅)
    (tagged : ∀ b ∈ w'.blocks,
      (w'.heap.metaAt b.base).type = .allocated ∧ (w'.heap.metaAt b.base).order = b.order)
    (record : ∀ c p, w.heap.IsSlab c p → Record w'.heap (layouts c) c p (chains' p))
    (handed : ∀ d ptr, (ptr ∈ w'.live d ∨ w.heap.HoldsFreelist d ptr) ↔
      ∃ q i, w.heap.IsSlab d q ∧ i < (layouts d).numObjects ∧ i ∉ chains' q ∧
        ptr = w.heap.object d q i)
    (apart : ∀ d, ∀ ptr ∈ w'.live d, ¬ w.heap.HoldsFreelist d ptr) :
    Stock w' layouts pool free' chains' := by
  refine ⟨fun d => (same.layout d).trans (stock.layout d), stock.valid, same.slabBlocks ▸ books,
    typed, tagged, same.isSlab ▸ record, ?_, ?_, same.holdsFreelist ▸ apart, ?_⟩
  · rw [same.isSlab]
    intro page inside type
    obtain ⟨below, before⟩ := types page inside type
    exact stock.owned page below before
  · unfold SlabWorld.Handed
    rw [same.holdsFreelist, same.isSlab, object_congr same.layout]
    exact handed
  · rw [same.isSlab]
    intro c p d q left right offC offD equal
    rw [same.freelist c p left (stock.layout c ▸ offC),
      same.freelist d q right (stock.layout d ▸ offD)] at equal
    exact stock.single c p d q left right offC offD equal

/-- Changes that leave the slabs' metadata, up to links, and the arrays alone. -/
theorem frame (layoutSame : ∀ c, (w'.heap.caches c).toSlabLayout = (w.heap.caches c).toSlabLayout)
    (total : w'.heap.buddy.pmt.numPageFrames = w.heap.buddy.pmt.numPageFrames)
    (types : ∀ page < w.heap.buddy.pmt.numPageFrames, (w'.heap.metaAt page).type = .slab →
      (w.heap.metaAt page).type = .slab)
    (kept : ∀ page, (w.heap.metaAt page).type = .slab → w'.heap.metaAt page =
      { w.heap.metaAt page with next := w'.heap.next page, prev := w'.heap.prev page })
    (memory : ∀ c p, w.heap.IsSlab c p → ∀ address, w.heap.arrayBase (layouts c) p ≤ address →
      address < w.heap.arrayBase (layouts c) p + (layouts c).arraySize →
        w'.heap.memory address = w.heap.memory address)
    (live : w'.live = w.live)
    (books : BuddyPmm.Books w'.heap.buddy pool free' (w'.blocks ∪ w.heap.slabBlocks))
    (typed : BuddyPmm.Typed w'.heap.buddy free' ∅)
    (tagged : ∀ b ∈ w'.blocks,
      (w'.heap.metaAt b.base).type = .allocated ∧ (w'.heap.metaAt b.base).order = b.order) :
    Stock w' layouts pool free' chains := by
  refine stock.change (.of_kept layoutSame total types kept) (fun page inside type => ?_) books
    typed tagged (fun c p slab => ?_) (live ▸ stock.handed) (live ▸ stock.apart)
  · rw [total] at inside
    exact ⟨inside, types page inside type⟩
  · refine (stock.record c p slab).congr (stock.room slab) (fun page here => ?_)
      (by rw [kept p slab.2.1]) (by rw [kept p slab.2.1]) (memory c p slab)
    rw [kept page ((stock.record c p slab).pages page here).1]
    exact ⟨rfl, rfl, rfl⟩

/-- Moving slabs between lists. -/
theorem relink {touched : Set ℕ} (relinked : w.heap.Relinked s' touched)
    (slabs : ∀ page ∈ touched, ∃ c, w.heap.IsSlab c page) :
    Stock ⟨s', w.live, w.blocks⟩ layouts pool free chains := by
  have unlisted : ∀ page ∈ touched, page ∉ BuddyPmm.Freelists.members free := by
    intro page inside
    obtain ⟨c, slab⟩ := slabs page inside
    exact stock.books.live_fresh (stock.block_live slab) (base_mem page _)
  have frame : BuddyPmm.Frame w.heap.buddy s'.buddy touched :=
    ⟨relinked.numPageFrames, relinked.elsewhere⟩
  refine stock.frame ?_ relinked.numPageFrames ?_ ?_ ?_ rfl
    (stock.books.congr relinked.table frame unlisted) ?_ ?_
  · intro c
    rw [relinked.caches c]
  · intro page _ type
    exact (relinked.sameType page).symm.trans type
  · intro page _
    exact relinked.onlyLinks page
  · intro c p _ address _ _
    rw [relinked.memory]
  · intro page inside type
    exact stock.typed page (relinked.numPageFrames ▸ inside)
      ((relinked.sameType page).symm.trans type)
  · intro b member
    obtain ⟨type, order⟩ := stock.tagged b member
    have same : s'.metaAt b.base = w.heap.metaAt b.base := by
      apply relinked.elsewhere
      intro inside
      obtain ⟨c, slab⟩ := slabs b.base inside
      rw [slab.2.1] at type
      cases type
    rw [same]
    exact ⟨type, order⟩

/-- Changing the counters of a cache. -/
theorem recount (c : ℕ) (cache : KmemCache)
    (same : cache.toSlabLayout = (w.heap.caches c).toSlabLayout) :
    Stock ⟨w.heap.setCache c cache, w.live, w.blocks⟩ layouts pool free chains := by
  refine stock.frame ?_ rfl (fun _ _ type => type) (fun _ _ => rfl) (fun _ _ _ _ _ _ => rfl) rfl
    stock.books stock.typed stock.tagged
  intro d
  change (Function.update w.heap.caches c cache d).toSlabLayout = _
  rw [Function.update_apply]
  split_ifs with here
  · exact here ▸ same
  · rfl

/-- Writing memory away from all freelist arrays. -/
theorem scribble (memory : Bytes)
    (away : ∀ c p, w.heap.IsSlab c p → ∀ address, w.heap.arrayBase (layouts c) p ≤ address →
      address < w.heap.arrayBase (layouts c) p + (layouts c).arraySize →
        memory address = w.heap.memory address) :
    Stock ⟨{ w.heap with memory := memory }, w.live, w.blocks⟩ layouts pool free chains :=
  stock.frame (fun _ => rfl) rfl (fun _ _ type => type) (fun _ _ => rfl) away rfl stock.books
    stock.typed stock.tagged

/-- Rewriting the freelist and the use count of one slab. -/
theorem rewrite (slab : w.heap.IsSlab c p) {freelist inuse : ℕ} {live : ℕ → Set ℕ}
    (caches : s'.caches = w.heap.caches)
    (table : s'.buddy.freelistTable = w.heap.buddy.freelistTable)
    (retouched : Retouched w.heap s' p freelist inuse)
    (offKeeps : (layouts c).isOffSlab = true → freelist = (w.heap.metaAt p).freelist)
    (outside : ∀ address, address < w.heap.arrayBase (layouts c) p ∨
      w.heap.arrayBase (layouts c) p + (layouts c).arraySize ≤ address →
        s'.memory address = w.heap.memory address)
    (list : Freelist (layouts c) s'.memory (w.heap.arrayBase (layouts c) p) freelist chain')
    (used : inuse + chain'.length = (layouts c).numObjects) (small : inuse < 2 ^ 16)
    (handed : ∀ d ptr, (ptr ∈ live d ∨ w.heap.HoldsFreelist d ptr) ↔
      ∃ q i, w.heap.IsSlab d q ∧ i < (layouts d).numObjects ∧
        i ∉ Function.update chains p chain' q ∧ ptr = w.heap.object d q i)
    (apart : ∀ d, ∀ ptr ∈ live d, ¬ w.heap.HoldsFreelist d ptr) :
    Stock ⟨s', live, w.blocks⟩ layouts pool free (Function.update chains p chain') := by
  have sameType : ∀ page, (s'.metaAt page).type = (w.heap.metaAt page).type := by
    intro page
    rw [retouched.kept page]
  have frame : BuddyPmm.Frame w.heap.buddy s'.buddy {p} := ⟨retouched.total, retouched.elsewhere⟩
  refine stock.change (retouched.sameSlabs (fun d => by rw [caches]) slab fun off =>
    offKeeps (stock.layout c ▸ off)) ?_ ?_ ?_ ?_ ?_ handed apart
  · intro page inside type
    exact ⟨retouched.total ▸ inside, (sameType page).symm.trans type⟩
  · refine stock.books.congr table frame fun page single => ?_
    rw [Set.mem_singleton_iff.mp single]
    exact stock.books.live_fresh (stock.block_live slab) (base_mem p _)
  · intro page inside type
    exact stock.typed page (retouched.total ▸ inside) ((sameType page).symm.trans type)
  · intro b member
    rw [retouched.kept b.base]
    exact stock.tagged b member
  · intro d q other
    by_cases same : q = p
    · subst same
      cases cache_unique slab other
      rw [Function.update_self]
      refine ⟨fun page inside => ?_, ?_, ?_, ?_⟩
      · rw [retouched.kept page]
        exact (stock.record c q slab).pages page inside
      · have base : (layouts c).metaBase (pageFrameAddr q) freelist =
            w.heap.arrayBase (layouts c) q := by
          unfold SlabHeap.arrayBase metaBase
          split_ifs with off
          · exact offKeeps off
          · rfl
        rw [retouched.here, base]
        exact list
      · rw [retouched.here]
        exact used
      · rw [retouched.here]
        exact small
    · rw [Function.update_of_ne same]
      refine (stock.record d q other).congr (stock.room other) (fun page _ => ?_)
        (by rw [retouched.elsewhere q same]) (by rw [retouched.elsewhere q same])
        fun address lower upper => outside address ?_
      · rw [retouched.kept page]
        exact ⟨rfl, rfl, rfl⟩
      · have := stock.arrays_disjoint other slab same
        omega

end

/-- The array of a new slab lies in the block, or in an object of the meta cache. -/
def ArraySource (w : SlabWorld) (layout : SlabLayout) (b : Block) (base : ℕ)
    (live : ℕ → Set ℕ) : Prop :=
  (layout.isOffSlab = false ∧
      base = b.base * kPageSizeBytes + layout.numObjects * layout.objSize ∧ live = w.live) ∨
    layout.isOffSlab = true ∧ ∃ m, layout.metaCache = some m ∧ base ∈ w.live m ∧
      live = Function.update w.live m (w.live m \ {base})

section

variable (stock : Stock w layouts pool free chains)
include stock

section

variable {base : ℕ} {live : ℕ → Set ℕ} (member : b ∈ w.blocks)
  (order : b.order = (layouts c).blockOrder) (source : ArraySource w (layouts c) b base live)
include member order source

/-- The array of a new slab meets no freelist array. -/
theorem source_disjoint (slab : w.heap.IsSlab d q) :
    base + (layouts c).arraySize ≤ w.heap.arrayBase (layouts d) q ∨
      w.heap.arrayBase (layouts d) q + (layouts d).arraySize ≤ base := by
  rcases source with ⟨on, rfl, _⟩ | ⟨off, m, meta_eq, held, _⟩
  · have fits := (stock.valid c).onSlab on
    obtain ⟨m, r, owner, lower, upper⟩ := stock.array_in_slab slab
    rcases stock.block_disjoint member owner with before | behind
    · rw [Nat.add_mul, order] at before
      exact Or.inl (by omega)
    · exact Or.inr (by omega)
  · obtain ⟨m', same, fits⟩ := (stock.valid c).array off
    cases meta_eq.symm.trans same
    have := stock.live_disjoint_array held slab
    omega

/-- The array of a new slab has room for its entries. -/
theorem source_room :
    Room (layouts c) base := by
  refine ⟨?_, (stock.valid c).narrow⟩
  rcases source with ⟨on, rfl, _⟩ | ⟨off, m, meta_eq, held, _⟩
  · have fits := (stock.valid c).onSlab on
    rw [← order] at fits
    have inside := (Nat.mul_le_mul_right kPageSizeBytes
      (stock.books.live_below (Or.inl member))).trans w.heap.buddy.pmt.addressable
    rw [Nat.add_mul] at inside
    omega
  · obtain ⟨m', same, fits⟩ := (stock.valid c).array off
    cases meta_eq.symm.trans same
    obtain ⟨r, i, owner, small, _, rfl⟩ := (stock.handed m base).mp (Or.inl held)
    obtain ⟨atI, upto⟩ := stock.object_eq owner small
    have blockFits := (stock.valid m).block
    have below := stock.bytes_inside owner
    rw [Nat.succ_mul] at upto
    omega

end

/-- An object given up for an array is the array of no other slab. -/
theorem source_not_array {base : ℕ} (held : base ∈ w.live m) (slab : w.heap.IsSlab d q)
    (off : (layouts d).isOffSlab = true) :
    (w.heap.metaAt q).freelist ≠ base := by
  intro same
  obtain ⟨m', r, i, owner, inside, address, _, holds⟩ := stock.array_object slab off
  obtain ⟨r', i', owner', inside', _, address'⟩ := (stock.handed m base).mp (Or.inl held)
  obtain ⟨rfl, _⟩ := stock.object_injective owner owner' inside inside'
    (address.symm.trans (same.trans address'))
  cases cache_unique owner owner'
  exact stock.apart _ base held (same ▸ holds)

end

/-- `s'` is `w.heap` with the block `b` as a slab of `c` whose array is at `base`. -/
structure Installed (w : SlabWorld) (s' : SlabHeap) (layouts : ℕ → SlabLayout) (c : ℕ) (b : Block)
    (base : ℕ) : Prop where
  member : b ∈ w.blocks
  order : b.order = (layouts c).blockOrder
  caches : s'.caches = w.heap.caches
  table : s'.buddy.freelistTable = w.heap.buddy.freelistTable
  total : s'.buddy.pmt.numPageFrames = w.heap.buddy.pmt.numPageFrames
  inside : ∀ page ∈ b.pages, s'.metaAt page = (w.heap.metaAt page).initSlab
    (layouts c).blockOrder (some c) (if (layouts c).isOffSlab then base else 0) 0
  outside : ∀ page ∉ b.pages, s'.metaAt page = w.heap.metaAt page
  memory : s'.memory = (layouts c).writeFreelist base w.heap.memory

namespace Installed

variable {base : ℕ} {live : ℕ → Set ℕ}

section

variable (stock : Stock w layouts pool free chains) (installed : Installed w s' layouts c b base)
  (slab : w.heap.IsSlab d q)
include stock installed slab

/-- No slab has a frame in the block. -/
theorem apart : ∀ page ∈ (⟨q, (layouts d).blockOrder⟩ : Block).pages, page ∉ b.pages := by
  intro page here there
  have same := stock.books.live_eq (Or.inl installed.member) (stock.block_live slab) there here
  have type := (stock.tagged b installed.member).1
  rw [show b.base = q from congrArg Block.base same, slab.2.1] at type
  cases type

theorem kept : s'.metaAt q = w.heap.metaAt q :=
  installed.outside q (installed.apart stock slab q (base_mem q _))

theorem differs : q ≠ b.base :=
  fun same => installed.apart stock slab q (base_mem q _) (same ▸ b.base_mem_pages)

end

theorem fresh (installed : Installed w s' layouts c b base) :
    s'.metaAt b.base = (w.heap.metaAt b.base).initSlab (layouts c).blockOrder (some c)
      (if (layouts c).isOffSlab then base else 0) 0 :=
  installed.inside b.base b.base_mem_pages

theorem layoutSame (installed : Installed w s' layouts c b base) (d : ℕ) :
    (s'.caches d).toSlabLayout = (w.heap.caches d).toSlabLayout := by rw [installed.caches]

section

variable (stock : Stock w layouts pool free chains) (installed : Installed w s' layouts c b base)
include stock installed

/-- The slabs are the old ones and the block. -/
theorem isSlab_iff : s'.IsSlab d q ↔ w.heap.IsSlab d q ∨ (d = c ∧ q = b.base) := by
  have aligned : 2 ^ b.order ∣ b.base :=
    stock.books.tiling.live_aligned (Or.inl installed.member)
  constructor
  · rintro ⟨below, type, cache, divides⟩
    by_cases here : q ∈ b.pages
    · rw [installed.inside q here] at cache divides
      refine Or.inr ⟨(Option.some.inj cache).symm, ?_⟩
      -- The only aligned frame of the block is its first.
      rw [← installed.order] at divides
      obtain ⟨lower, upper⟩ := Block.mem_pages.mp here
      have gap : 2 ^ b.order ∣ q - b.base := Nat.dvd_sub divides aligned
      have zero := Nat.eq_zero_of_dvd_of_lt gap (by omega)
      omega
    · rw [installed.outside q here] at type cache divides
      exact Or.inl ⟨installed.total ▸ below, type, cache, divides⟩
  · rintro (slab | ⟨rfl, rfl⟩)
    · have same := installed.kept stock slab
      obtain ⟨below, type, cache, divides⟩ := slab
      unfold SlabHeap.IsSlab
      rw [same, installed.total]
      exact ⟨below, type, cache, divides⟩
    · unfold SlabHeap.IsSlab
      rw [installed.fresh, installed.total]
      refine ⟨stock.books.live_inside (Or.inl installed.member) b.base_mem_pages, rfl, rfl, ?_⟩
      rw [← installed.order]
      exact aligned

/-- The arrays held in objects are the old ones and that of an off-slab block. -/
theorem holdsFreelist_iff :
    s'.HoldsFreelist d ptr ↔ w.heap.HoldsFreelist d ptr ∨
      ((layouts c).isOffSlab = true ∧ (layouts c).metaCache = some d ∧ ptr = base) := by
  unfold SlabHeap.HoldsFreelist
  rw [installed.caches]
  constructor
  · rintro ⟨e, q, slab, off, used, rfl⟩
    rcases (installed.isSlab_iff stock).mp slab with before | ⟨rfl, rfl⟩
    · exact Or.inl ⟨e, q, before, off, used, by rw [installed.kept stock before]⟩
    · rw [stock.layout e] at off used
      refine Or.inr ⟨off, used, ?_⟩
      rw [installed.fresh]
      exact if_pos off
  · rintro (⟨e, q, slab, off, used, rfl⟩ | ⟨off, used, rfl⟩)
    · exact ⟨e, q, (installed.isSlab_iff stock).mpr (Or.inl slab), off, used,
        by rw [installed.kept stock slab]⟩
    · refine ⟨c, b.base, (installed.isSlab_iff stock).mpr (Or.inr ⟨rfl, rfl⟩), ?_⟩
      rw [stock.layout c, installed.fresh]
      exact ⟨off, used, if_pos off⟩

/-- The same blocks are live as before. -/
theorem blocks_eq : w.blocks \ {b} ∪ s'.slabBlocks = w.blocks ∪ w.heap.slabBlocks := by
  ext x
  constructor
  · rintro (⟨old, _⟩ | ⟨d, slab, size⟩)
    · exact Or.inl old
    · rcases (installed.isSlab_iff stock).mp slab with before | ⟨rfl, same⟩
      · exact Or.inr ⟨d, before, by rw [size, installed.kept stock before]⟩
      · rw [same, installed.fresh] at size
        have whole : x = b := by
          cases x
          cases b
          simp only [Block.mk.injEq]
          exact ⟨same, size.trans installed.order.symm⟩
        exact Or.inl (whole ▸ installed.member)
  · rintro (old | ⟨d, slab, size⟩)
    · by_cases same : x = b
      · subst same
        refine Or.inr ⟨c, (installed.isSlab_iff stock).mpr (Or.inr ⟨rfl, rfl⟩), ?_⟩
        rw [installed.fresh]
        exact installed.order
      · exact Or.inl ⟨old, same⟩
    · exact Or.inr ⟨d, (installed.isSlab_iff stock).mpr (Or.inl slab),
        by rw [size, installed.kept stock slab]⟩

end

variable (stock : Stock w layouts pool free chains) (installed : Installed w s' layouts c b base)
  (source : ArraySource w (layouts c) b base live)
include stock installed source

/-- The array of the new slab is where its metadata says. -/
theorem metaBase_eq :
    (layouts c).metaBase (pageFrameAddr b.base) (s'.metaAt b.base).freelist = base := by
  have room := stock.source_room installed.member installed.order source
  unfold metaBase
  rw [installed.fresh]
  rcases source with ⟨on, rfl, _⟩ | ⟨off, _⟩
  · have below := stock.books.live_inside (Or.inl installed.member) b.base_mem_pages
    have nonempty := (stock.valid c).arraySize_pos
    have := room.inside
    rw [on, pageFrameAddr_div below]
    exact Nat.mod_eq_of_lt (by omega)
  · rw [if_pos off]
    exact if_pos off

/-- Old slabs keep their records, and all objects of the new one are free. -/
theorem record (slab : s'.IsSlab d q) :
    Record s' (layouts d) d q
      (Function.update chains b.base (List.range (layouts c).numObjects) q) := by
  have room := stock.source_room installed.member installed.order source
  obtain ⟨list, written⟩ := freelist_writeFreelist room (stock.valid c).objects w.heap.memory
  rcases (installed.isSlab_iff stock).mp slab with before | ⟨rfl, rfl⟩
  · rw [Function.update_of_ne (installed.differs stock before)]
    refine (stock.record d q before).congr (stock.room before) (fun page here => ?_)
      (congrArg PageMeta.freelist (installed.kept stock before))
      (congrArg PageMeta.inuse (installed.kept stock before)) fun address lower upper => ?_
    · rw [installed.outside page (installed.apart stock before page here)]
      exact ⟨rfl, rfl, rfl⟩
    · rw [installed.memory]
      apply written
      have := stock.source_disjoint installed.member installed.order source before
      omega
  · rw [Function.update_self]
    refine ⟨fun page here => ?_, ?_, ?_, ?_⟩
    · rw [← installed.order] at here
      rw [installed.inside page here]
      exact ⟨rfl, rfl, rfl⟩
    · rw [installed.metaBase_eq stock source, installed.memory, installed.fresh]
      exact list
    · rw [installed.fresh, List.length_range]
      exact Nat.zero_add _
    · rw [installed.fresh]
      exact Nat.two_pow_pos 16

/-- The same objects are handed out, except one that is given up for the array. -/
theorem handed (d ptr : ℕ) :
    (ptr ∈ live d ∨ s'.HoldsFreelist d ptr) ↔
      ∃ q i, s'.IsSlab d q ∧ i < (layouts d).numObjects ∧
        i ∉ Function.update chains b.base (List.range (layouts c).numObjects) q ∧
        ptr = s'.object d q i := by
  have same : (∃ q i, s'.IsSlab d q ∧ i < (layouts d).numObjects ∧
      i ∉ Function.update chains b.base (List.range (layouts c).numObjects) q ∧
      ptr = s'.object d q i) ↔ w.Handed d ptr := by
    rw [object_congr installed.layoutSame, stock.handed d ptr]
    constructor
    · rintro ⟨q, i, slab, small, taken, address⟩
      rcases (installed.isSlab_iff stock).mp slab with before | ⟨rfl, rfl⟩
      · rw [Function.update_of_ne (installed.differs stock before)] at taken
        exact ⟨q, i, before, small, taken, address⟩
      · rw [Function.update_self] at taken
        exact (taken (List.mem_range.mpr small)).elim
    · rintro ⟨q, i, slab, small, taken, address⟩
      refine ⟨q, i, (installed.isSlab_iff stock).mpr (Or.inl slab), small, ?_, address⟩
      rw [Function.update_of_ne (installed.differs stock slab)]
      exact taken
  rw [same, installed.holdsFreelist_iff stock]
  unfold SlabWorld.Handed
  rcases source with ⟨on, _, rfl⟩ | ⟨off, m, used, held, rfl⟩
  · simp only [on, Bool.false_eq_true, false_and, or_false]
  · by_cases here : d = m
    · subst here
      rw [Function.update_self]
      by_cases given : ptr = base
      · subst given
        simp only [held, true_or, off, used, and_self, or_true]
      · simp only [Set.mem_sdiff, Set.mem_singleton_iff, given, not_false_eq_true, and_true,
          and_false, or_false]
    · rw [Function.update_of_ne here, used]
      have other : (some m : Option ℕ) ≠ some d := fun eq => here (Option.some.inj eq).symm
      simp only [other, false_and, and_false, or_false]

theorem live_apart (held : ptr ∈ live d) : ¬ s'.HoldsFreelist d ptr := by
  rw [installed.holdsFreelist_iff stock, not_or]
  rcases source with ⟨on, _, rfl⟩ | ⟨off, m, used, given, rfl⟩
  · exact ⟨stock.apart d ptr held, fun ⟨off, _⟩ => by rw [on] at off; cases off⟩
  · by_cases same : d = m
    · subst same
      rw [Function.update_self] at held
      exact ⟨stock.apart d ptr held.1, fun ⟨_, _, here⟩ => held.2 here⟩
    · rw [Function.update_of_ne same] at held
      refine ⟨stock.apart d ptr held, fun ⟨_, here, _⟩ => same ?_⟩
      exact Option.some.inj (here.symm.trans used)

/-- No two slabs share a freelist array. -/
theorem arrays_single {e r : ℕ} (left : s'.IsSlab d q) (right : s'.IsSlab e r)
    (offD : (layouts d).isOffSlab = true) (offE : (layouts e).isOffSlab = true)
    (same : (s'.metaAt q).freelist = (s'.metaAt r).freelist) : q = r := by
  have given : (layouts c).isOffSlab = true →
      (s'.metaAt b.base).freelist = base ∧ ∃ m, base ∈ w.live m := by
    intro off
    refine ⟨?_, ?_⟩
    · rw [installed.fresh]
      exact if_pos off
    · rcases source with ⟨on, _⟩ | ⟨_, m, _, held, _⟩
      · rw [on] at off
        cases off
      · exact ⟨m, held⟩
  rcases (installed.isSlab_iff stock).mp left with oldD | ⟨rfl, rfl⟩
  · rcases (installed.isSlab_iff stock).mp right with oldE | ⟨rfl, rfl⟩
    · rw [installed.kept stock oldD, installed.kept stock oldE] at same
      exact stock.single d q e r oldD oldE offD offE same
    · obtain ⟨array, m, held⟩ := given offE
      rw [installed.kept stock oldD, array] at same
      exact (stock.source_not_array held oldD offD same).elim
  · rcases (installed.isSlab_iff stock).mp right with oldE | ⟨rfl, rfl⟩
    · obtain ⟨array, m, held⟩ := given offD
      rw [installed.kept stock oldE, array] at same
      exact (stock.source_not_array held oldE offE same.symm).elim
    · rfl

end Installed

/-- Turning a block into a slab, all of whose objects are free. -/
theorem install (stock : Stock w layouts pool free chains) {base : ℕ} {live : ℕ → Set ℕ}
    (installed : Installed w s' layouts c b base)
    (source : ArraySource w (layouts c) b base live) :
    Stock ⟨s', live, w.blocks \ {b}⟩ layouts pool free
      (Function.update chains b.base (List.range (layouts c).numObjects)) := by
  have frame : BuddyPmm.Frame w.heap.buddy s'.buddy b.pages := ⟨installed.total, installed.outside⟩
  refine ⟨fun d => (installed.layoutSame d).trans (stock.layout d), stock.valid, ?_, ?_, ?_,
    fun d q slab => installed.record stock source slab, ?_,
    fun d ptr => installed.handed stock source d ptr,
    fun d ptr held => installed.live_apart stock source held,
    fun d q e r left right => installed.arrays_single stock source left right⟩
  · rw [installed.blocks_eq stock]
    exact stock.books.congr installed.table frame fun page here =>
      stock.books.live_fresh (Or.inl installed.member) here
  · intro page below type
    change (s'.metaAt page).type = _ at type
    by_cases here : page ∈ b.pages
    · rw [installed.inside page here] at type
      cases type
    · rw [installed.outside page here] at type
      exact stock.typed page (installed.total ▸ below) type
  · rintro x ⟨old, other⟩
    have away : x.base ∉ b.pages := fun here => other
      (stock.books.live_eq (Or.inl old) (Or.inl installed.member) x.base_mem_pages here)
    rw [installed.outside x.base away]
    exact stock.tagged x old
  · intro page below type
    by_cases here : page ∈ b.pages
    · refine ⟨c, b.base, (installed.isSlab_iff stock).mpr (Or.inr ⟨rfl, rfl⟩), ?_⟩
      rw [← installed.order]
      exact here
    · rw [installed.outside page here] at type
      obtain ⟨d, q, slab, there⟩ := stock.owned page (installed.total ▸ below) type
      exact ⟨d, q, (installed.isSlab_iff stock).mpr (Or.inl slab), there⟩

end Stock

end AlkOS.Mem.KmemCache
