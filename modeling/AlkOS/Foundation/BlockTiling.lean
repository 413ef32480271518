import AlkOS.Foundation.DyadicBlock

/-!
# Tilings of a pool by free and live blocks

A pool of numbers is divided into aligned blocks, free or live, and no two free blocks
of one order below the maximum are buddies. Splitting, merging and handing over blocks
keep the tiling. The numbers that the free side covers determine its blocks.
-/

namespace DyadicBlocks

open Block Set

variable {maxOrder page : ℕ} {pool pool' : Set ℕ} {all free live free' live' : Set Block}
  {b c : Block} {blocks : Set Block} {pages : Set ℕ}

/-- The numbers covered by a set of blocks. -/
def Block.area (blocks : Set Block) : Set ℕ := ⋃ b ∈ blocks, b.pages

theorem Block.mem_area : page ∈ area blocks ↔ ∃ b ∈ blocks, page ∈ b.pages := by
  simp only [area, mem_iUnion, exists_prop]

theorem Block.area_mono {blocks blocks' : Set Block} (subset : blocks ⊆ blocks') :
    area blocks ⊆ area blocks' := by
  intro page member
  obtain ⟨b, inside, here⟩ := mem_area.mp member
  exact mem_area.mpr ⟨b, subset inside, here⟩

theorem Block.pages_subset_area (member : b ∈ blocks) :
    b.pages ⊆ area blocks := fun _ here => mem_area.mpr ⟨b, member, here⟩

/-- Every number of a set as a block of its own. -/
def Block.singles (pages : Set ℕ) : Set Block := { b | b.order = 0 ∧ b.base ∈ pages }

theorem Block.eq_base_of_singles (member : b ∈ singles pages) (here : page ∈ b.pages) :
    page = b.base := by
  rw [mem_pages, member.1] at here
  omega

/-- Aligned blocks of bounded order that cover a pool, each number once. -/
structure Partition (maxOrder : ℕ) (pool : Set ℕ) (all : Set Block) : Prop where
  aligned : ∀ b ∈ all, b.Aligned
  order_le : ∀ b ∈ all, b.order ≤ maxOrder
  owner_unique : ∀ b ∈ all, ∀ c ∈ all, ∀ page ∈ b.pages, page ∈ c.pages → b = c
  cover : area all = pool

namespace Partition

theorem empty : Partition maxOrder ∅ ∅ := by
  refine ⟨?_, ?_, ?_, ?_⟩
  · intro b member
    cases member
  · intro b member
    cases member
  · intro b member
    cases member
  · ext page
    simp only [mem_area, mem_empty_iff_false, false_and, exists_false]

variable (partition : Partition maxOrder pool all)
include partition

/-- Numbers outside of the pool join it as blocks of their own. -/
theorem adopt (outside : Disjoint pages pool) :
    Partition maxOrder (pool ∪ pages) (all ∪ singles pages) := by
  have foreign : ∀ b ∈ all, ∀ c ∈ singles pages, ∀ page ∈ b.pages, page ∉ c.pages := by
    intro b inAll c single page hereB hereC
    rw [eq_base_of_singles single hereC] at hereB
    apply Set.disjoint_left.mp outside single.2
    rw [← partition.cover]
    exact pages_subset_area inAll hereB
  refine ⟨?_, ?_, ?_, ?_⟩
  · intro b member
    rcases member with before | single
    · exact partition.aligned b before
    · unfold Block.Aligned
      rw [single.1]
      exact one_dvd b.base
  · intro b member
    rcases member with before | single
    · exact partition.order_le b before
    · rw [single.1]
      exact Nat.zero_le maxOrder
  · intro b inB c inC page hereB hereC
    rcases inB with beforeB | singleB
    · rcases inC with beforeC | singleC
      · exact partition.owner_unique b beforeB c beforeC page hereB hereC
      · exact (foreign b beforeB c singleC page hereB hereC).elim
    · rcases inC with beforeC | singleC
      · exact (foreign c beforeC b singleB page hereC hereB).elim
      · obtain ⟨base, order⟩ := b
        obtain ⟨base', order'⟩ := c
        have bases : base = base' := (eq_base_of_singles singleB hereB).symm.trans
          (eq_base_of_singles singleC hereC)
        have orders : order = order' := singleB.1.trans singleC.1.symm
        rw [bases, orders]
  · ext page
    rw [← partition.cover, mem_area]
    constructor
    · intro ⟨b, member, here⟩
      rcases member with before | single
      · exact Or.inl (pages_subset_area before here)
      · rw [eq_base_of_singles single here]
        exact Or.inr single.2
    · intro inside
      rcases inside with before | single
      · obtain ⟨b, member, here⟩ := mem_area.mp before
        exact ⟨b, Or.inl member, here⟩
      · exact ⟨⟨page, 0⟩, Or.inr ⟨rfl, single⟩, base_mem_pages _⟩

/-- Splitting a block replaces it by its halves. -/
theorem split (member : b ∈ all) (positive : 0 < b.order) :
    Partition maxOrder pool (insert b.low (insert b.high (all \ {b}))) := by
  have aligned := partition.aligned b member
  have whole := b.low_pages_union_high_pages positive
  have halvesApart := Set.disjoint_left.mp b.low_pages_disjoint_high_pages
  have outside : ∀ c ∈ all \ {b}, ∀ page ∈ b.pages, page ∉ c.pages := by
    intro c kept page inB inC
    exact kept.2 (partition.owner_unique b member c kept.1 page inB inC).symm
  have inLow : b.low.pages ⊆ b.pages := whole ▸ subset_union_left
  have inHigh : b.high.pages ⊆ b.pages := whole ▸ subset_union_right
  refine ⟨?_, ?_, ?_, ?_⟩
  · rintro c (rfl | rfl | kept)
    · exact aligned.low
    · exact aligned.high
    · exact partition.aligned c kept.1
  · have bound := partition.order_le b member
    rintro c (rfl | rfl | kept)
    · exact (Nat.sub_le _ _).trans bound
    · exact (Nat.sub_le _ _).trans bound
    · exact partition.order_le c kept.1
  · rintro c (rfl | rfl | keptC) d (rfl | rfl | keptD) page inC inD
    · rfl
    · exact (halvesApart inC inD).elim
    · exact (outside d keptD page (inLow inC) inD).elim
    · exact (halvesApart inD inC).elim
    · rfl
    · exact (outside d keptD page (inHigh inC) inD).elim
    · exact (outside c keptC page (inLow inD) inC).elim
    · exact (outside c keptC page (inHigh inD) inC).elim
    · exact partition.owner_unique c keptC.1 d keptD.1 page inC inD
  · rw [← partition.cover]
    ext page
    simp only [mem_area]
    constructor
    · rintro ⟨c, rfl | rfl | kept, here⟩
      · exact ⟨b, member, inLow here⟩
      · exact ⟨b, member, inHigh here⟩
      · exact ⟨c, kept.1, here⟩
    · rintro ⟨c, inAll, here⟩
      by_cases same : c = b
      · subst same
        rw [whole] at here
        rcases here with lower | upper
        · exact ⟨_, Or.inl rfl, lower⟩
        · exact ⟨_, Or.inr (Or.inl rfl), upper⟩
      · exact ⟨c, Or.inr (Or.inr ⟨inAll, same⟩), here⟩

/-- Merging a block with its buddy replaces both by their parent. -/
theorem merge (member : b ∈ all) (buddy : b.buddy ∈ all) (room : b.order < maxOrder) :
    Partition maxOrder pool (insert b.parent (all \ {b, b.buddy})) := by
  have aligned := partition.aligned b member
  have whole := aligned.parent_pages
  have outside : ∀ c ∈ all \ {b, b.buddy}, ∀ page ∈ b.parent.pages, page ∉ c.pages := by
    intro c kept page inParent inC
    rw [whole] at inParent
    rcases inParent with own | other
    · exact kept.2 (Or.inl (partition.owner_unique b member c kept.1 page own inC).symm)
    · exact kept.2 (Or.inr (partition.owner_unique _ buddy c kept.1 page other inC).symm)
  refine ⟨?_, ?_, ?_, ?_⟩
  · rintro c (rfl | kept)
    · exact aligned.parent
    · exact partition.aligned c kept.1
  · rintro c (rfl | kept)
    · exact room
    · exact partition.order_le c kept.1
  · rintro c (rfl | keptC) d (rfl | keptD) page inC inD
    · rfl
    · exact (outside d keptD page inC inD).elim
    · exact (outside c keptC page inD inC).elim
    · exact partition.owner_unique c keptC.1 d keptD.1 page inC inD
  · rw [← partition.cover]
    ext page
    simp only [mem_area]
    constructor
    · rintro ⟨c, rfl | kept, here⟩
      · rw [whole] at here
        rcases here with own | other
        · exact ⟨b, member, own⟩
        · exact ⟨_, buddy, other⟩
      · exact ⟨c, kept.1, here⟩
    · rintro ⟨c, inAll, here⟩
      by_cases own : c = b
      · exact ⟨_, Or.inl rfl, whole ▸ Or.inl (own ▸ here)⟩
      · by_cases other : c = b.buddy
        · exact ⟨_, Or.inl rfl, whole ▸ Or.inr (other ▸ here)⟩
        · exact ⟨c, Or.inr ⟨inAll, not_or.mpr ⟨own, other⟩⟩, here⟩

end Partition

/-- A pool divided into free and live blocks whose free side is coalesced. -/
structure Tiling (maxOrder : ℕ) (pool : Set ℕ) (free live : Set Block) : Prop where
  partition : Partition maxOrder pool (free ∪ live)
  apart : Disjoint free live
  coalesced : ∀ b ∈ free, b.order < maxOrder → b.buddy ∉ free

namespace Tiling

section

variable (tiling : Tiling maxOrder pool free live)
include tiling

theorem not_live (member : b ∈ free) : b ∉ live :=
  Set.disjoint_left.mp tiling.apart member

theorem not_free (member : b ∈ live) : b ∉ free :=
  Set.disjoint_right.mp tiling.apart member

theorem free_aligned (member : b ∈ free) : b.Aligned :=
  tiling.partition.aligned b (Or.inl member)

theorem live_aligned (member : b ∈ live) : b.Aligned :=
  tiling.partition.aligned b (Or.inr member)

/-- A number of a live block is in no free block. -/
theorem live_not_in_area (member : b ∈ live) (here : page ∈ b.pages) : page ∉ area free := by
  intro covered
  obtain ⟨c, inFree, there⟩ := mem_area.mp covered
  have same := tiling.partition.owner_unique b (Or.inr member) c (Or.inl inFree) page here there
  exact tiling.not_live inFree (same ▸ member)

/-- The free pages are the pages of the pool that are not live. -/
theorem area_free_eq : area free = pool \ area live := by
  rw [← tiling.partition.cover]
  ext page
  constructor
  · intro inside
    refine ⟨area_mono subset_union_left inside, fun held => ?_⟩
    obtain ⟨b, member, here⟩ := mem_area.mp held
    exact tiling.live_not_in_area member here inside
  · rintro ⟨inside, outside⟩
    obtain ⟨b, member | member, here⟩ := mem_area.mp inside
    · exact pages_subset_area member here
    · exact (outside (pages_subset_area member here)).elim

end

theorem empty : Tiling maxOrder ∅ ∅ ∅ := by
  refine ⟨?_, disjoint_bot_left, fun b member => by cases member⟩
  rw [Set.union_empty]
  exact Partition.empty

section

variable (tiling : Tiling maxOrder pool free live)
include tiling

/-- Numbers outside of the pool join it as live blocks. -/
theorem adopt (outside : Disjoint pages pool) :
    Tiling maxOrder (pool ∪ pages) free (live ∪ singles pages) := by
  refine ⟨?_, ?_, tiling.coalesced⟩
  · rw [← Set.union_assoc]
    exact tiling.partition.adopt outside
  · rw [Set.disjoint_left]
    intro b inFree member
    rcases member with before | single
    · exact tiling.not_live inFree before
    · apply Set.disjoint_left.mp outside single.2
      rw [← tiling.partition.cover]
      exact pages_subset_area (Or.inl inFree) b.base_mem_pages

/-- A free block can be taken out of the free side. -/
theorem detach (member : b ∈ free) : Tiling maxOrder pool (free \ {b}) (insert b live) := by
  have same : free \ {b} ∪ insert b live = free ∪ live := by
    ext c
    simp only [mem_union, mem_sdiff, mem_singleton_iff, mem_insert_iff]
    by_cases own : c = b
    · subst own
      simp only [member, true_or, or_true]
    · simp only [own, not_false_iff, and_true, false_or]
  refine ⟨same ▸ tiling.partition, ?_, ?_⟩
  · rw [Set.disjoint_left]
    rintro c ⟨inFree, notOwn⟩ (own | inLive)
    · exact notOwn own
    · exact tiling.not_live inFree inLive
  · intro c kept room buddy
    exact tiling.coalesced c kept.1 room buddy.1

/-- A live block whose buddy is not free can be given to the free side. -/
theorem attach (member : b ∈ live) (alone : b.order < maxOrder → b.buddy ∉ free) :
    Tiling maxOrder pool (insert b free) (live \ {b}) := by
  have same : insert b free ∪ live \ {b} = free ∪ live := by
    ext c
    simp only [mem_union, mem_sdiff, mem_singleton_iff, mem_insert_iff]
    by_cases own : c = b
    · subst own
      simp only [member, true_or, or_true]
    · simp only [own, not_false_iff, and_true, false_or]
  refine ⟨same ▸ tiling.partition, ?_, ?_⟩
  · rw [Set.disjoint_left]
    rintro c (own | inFree) ⟨inLive, notOwn⟩
    · exact notOwn own
    · exact tiling.not_live inFree inLive
  · rintro c (rfl | kept) room (own | buddy)
    · exact (tiling.live_aligned member).ne_buddy own
    · exact alone room buddy
    · -- `c` was free before and the attached block is its buddy.
      have back : b.buddy = c := by rw [← own, buddy_buddy]
      exact alone (by rw [← own]; exact room) (back ▸ kept)
    · exact tiling.coalesced c kept room buddy

/-- Splitting a live block frees its upper half. -/
theorem split (member : b ∈ live) (positive : 0 < b.order) :
    Tiling maxOrder pool (insert b.high free) (insert b.low (live \ {b})) := by
  have aligned := tiling.live_aligned member
  have halves := tiling.partition.split (Or.inr member) positive
  have same : insert b.high free ∪ insert b.low (live \ {b}) =
      insert b.low (insert b.high ((free ∪ live) \ {b})) := by
    ext c
    have elsewhere : c ∈ free → c ≠ b := fun inFree own => tiling.not_free member (own ▸ inFree)
    simp only [mem_union, mem_sdiff, mem_insert_iff]
    tauto
  have lowNotFree : b.low ∉ free := by
    intro inFree
    have inside : b.low.pages ⊆ b.pages :=
      b.low_pages_union_high_pages positive ▸ subset_union_left
    exact tiling.live_not_in_area member (inside b.low.base_mem_pages)
      (mem_area.mpr ⟨_, inFree, b.low.base_mem_pages⟩)
  have distinct : b.high ≠ b.low := aligned.low_buddy positive ▸ aligned.low.ne_buddy
  refine ⟨same ▸ halves, ?_, ?_⟩
  · rw [Set.disjoint_left]
    rintro c (rfl | inFree) (own | ⟨inLive, _⟩)
    · exact distinct own
    · have here := tiling.partition.owner_unique _ (Or.inr inLive) b (Or.inr member)
        b.high.base b.high.base_mem_pages
        ((b.low_pages_union_high_pages positive).symm ▸ Or.inr b.high.base_mem_pages)
      have shorter : b.high.order < b.order := Nat.sub_lt positive Nat.one_pos
      rw [here] at shorter
      exact lt_irrefl _ shorter
    · exact lowNotFree (own ▸ inFree)
    · exact tiling.not_live inFree inLive
  · rintro c (rfl | kept) room (own | buddy)
    · exact aligned.high.ne_buddy own
    · rw [aligned.high_buddy positive] at buddy
      exact lowNotFree buddy
    · have back : c = b.low := by
        rw [← aligned.high_buddy positive, ← own, buddy_buddy]
      exact lowNotFree (back ▸ kept)
    · exact tiling.coalesced c kept room buddy

/-- Merging a live block with its free buddy yields a live parent. -/
theorem merge (member : b ∈ live) (buddy : b.buddy ∈ free) (room : b.order < maxOrder) :
    Tiling maxOrder pool (free \ {b.buddy}) (insert b.parent (live \ {b})) := by
  have aligned := tiling.live_aligned member
  have merged := tiling.partition.merge (Or.inr member) (Or.inl buddy) room
  have same : free \ {b.buddy} ∪ insert b.parent (live \ {b}) =
      insert b.parent ((free ∪ live) \ {b, b.buddy}) := by
    ext c
    have elsewhere : c ∈ free → c ≠ b := fun inFree own => tiling.not_free member (own ▸ inFree)
    have apart : c ∈ live → c ≠ b.buddy := fun inLive own => tiling.not_live buddy (own ▸ inLive)
    simp only [mem_union, mem_sdiff, mem_insert_iff]
    tauto
  refine ⟨same ▸ merged, ?_, ?_⟩
  · rw [Set.disjoint_left]
    rintro c ⟨inFree, _⟩ (rfl | ⟨inLive, _⟩)
    · -- A free parent would share a number with the live block.
      have here : b.base ∈ b.parent.pages := aligned.parent_pages ▸ Or.inl b.base_mem_pages
      exact tiling.live_not_in_area member b.base_mem_pages (mem_area.mpr ⟨_, inFree, here⟩)
    · exact tiling.not_live inFree inLive
  · intro c kept room buddy
    exact tiling.coalesced c kept.1 room buddy.1

/-- Every aligned range of free numbers lies in one free block. -/
theorem exists_free_superset (aligned : b.Aligned) (bound : b.order ≤ maxOrder)
    (subset : b.pages ⊆ area free) :
    ∃ c ∈ free, b.pages ⊆ c.pages := by
  obtain ⟨base, order⟩ := b
  induction order generalizing base with
  | zero =>
    obtain ⟨c, inFree, here⟩ := mem_area.mp (subset (base_mem_pages _))
    exact ⟨c, inFree, aligned.pages_subset (tiling.free_aligned inFree) (Nat.zero_le _)
      (base_mem_pages _) here⟩
  | succ order ih =>
    let whole : Block := ⟨base, order + 1⟩
    have positive : 0 < whole.order := Nat.succ_pos order
    have halves := whole.low_pages_union_high_pages positive
    have smaller : order ≤ maxOrder := (Nat.le_succ order).trans bound
    obtain ⟨lower, lowerFree, lowIn⟩ := ih base aligned.low smaller
      ((halves ▸ subset_union_left).trans subset)
    obtain ⟨upper, upperFree, highIn⟩ := ih (base + 2 ^ order) aligned.high smaller
      ((halves ▸ subset_union_right).trans subset)
    have lowHere := whole.low.base_mem_pages
    have highHere := whole.high.base_mem_pages
    -- A free block that exceeds a half holds its parent, the whole range.
    rcases Nat.lt_or_ge order lower.order with larger | tight
    · refine ⟨lower, lowerFree, ?_⟩
      have grown := aligned.low.parent_pages_subset (tiling.free_aligned lowerFree) larger lowHere
        (lowIn lowHere)
      rwa [parent_low aligned positive] at grown
    · rcases Nat.lt_or_ge order upper.order with larger | tight'
      · refine ⟨upper, upperFree, ?_⟩
        have grown := aligned.high.parent_pages_subset (tiling.free_aligned upperFree) larger
          highHere (highIn highHere)
        rwa [parent_high aligned positive] at grown
      · have lowEq : whole.low = lower := aligned.low.eq_of_mem (tiling.free_aligned lowerFree)
          (le_antisymm (order_le_of_subset lowIn) tight) lowHere (lowIn lowHere)
        have highEq : whole.high = upper := aligned.high.eq_of_mem
          (tiling.free_aligned upperFree)
          (le_antisymm (order_le_of_subset highIn) tight') highHere (highIn highHere)
        refine (tiling.coalesced whole.low (lowEq ▸ lowerFree) bound ?_).elim
        rw [aligned.low_buddy positive]
        exact highEq ▸ upperFree

/-- The free blocks are the maximal aligned ranges of free numbers. -/
theorem mem_free_iff :
    b ∈ free ↔ b.Aligned ∧ b.order ≤ maxOrder ∧ b.pages ⊆ area free ∧
      (b.order < maxOrder → ¬ b.parent.pages ⊆ area free) := by
  constructor
  · intro member
    have aligned := tiling.free_aligned member
    refine ⟨aligned, tiling.partition.order_le b (Or.inl member),
      pages_subset_area member, ?_⟩
    intro room covered
    obtain ⟨c, inFree, inside⟩ := tiling.exists_free_superset aligned.parent room covered
    have here : b.base ∈ c.pages :=
      inside (aligned.parent_pages ▸ Or.inl b.base_mem_pages)
    have same := tiling.partition.owner_unique b (Or.inl member) c (Or.inl inFree) b.base
      b.base_mem_pages here
    have longer := order_le_of_subset inside
    rw [← same] at longer
    exact Nat.not_succ_le_self _ longer
  · rintro ⟨aligned, bound, covered, maximal⟩
    obtain ⟨c, inFree, inside⟩ := tiling.exists_free_superset aligned bound covered
    have alignedC := tiling.free_aligned inFree
    have here := inside b.base_mem_pages
    rcases Nat.lt_or_ge b.order c.order with larger | tight
    · have room : b.order < maxOrder :=
        larger.trans_le (tiling.partition.order_le c (Or.inl inFree))
      have grown := aligned.parent_pages_subset alignedC larger b.base_mem_pages here
      exact (maximal room (grown.trans (pages_subset_area inFree))).elim
    · have same := aligned.eq_of_mem alignedC
        (le_antisymm (order_le_of_subset inside) tight) b.base_mem_pages here
      exact same ▸ inFree

end

/-- The free numbers determine the free blocks. -/
theorem free_eq_of_area_eq (left : Tiling maxOrder pool free live)
    (right : Tiling maxOrder pool' free' live') (same : area free = area free') :
    free = free' := by
  ext b
  rw [left.mem_free_iff, right.mem_free_iff, same]

end Tiling

end DyadicBlocks
