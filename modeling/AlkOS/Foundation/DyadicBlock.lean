import Mathlib

/-!
# Dyadic blocks

A block of order `k` is a run of `2 ^ k` consecutive numbers; it is aligned when its
base is a multiple of its length. Aligned blocks are nested or disjoint. The buddy of a
block is found by flipping one bit of its base.
-/

namespace DyadicBlocks

/-- A run of `2 ^ order` consecutive numbers starting at `base`. -/
@[ext]
structure Block where
  base : ℕ
  order : ℕ
deriving DecidableEq, Repr

namespace Block

variable {b c : Block} {page : ℕ}

/-- The numbers a block covers. -/
def pages (b : Block) : Set ℕ := Set.Ico b.base (b.base + 2 ^ b.order)

/-- The base is a multiple of the length. -/
def Aligned (b : Block) : Prop := 2 ^ b.order ∣ b.base

instance : Decidable b.Aligned := inferInstanceAs (Decidable (_ ∣ _))

/-- The block with the bit of the base flipped that the order names. -/
def buddy (b : Block) : Block := ⟨b.base ^^^ 2 ^ b.order, b.order⟩

/-- The block of the next order that a block and its buddy fill. -/
def parent (b : Block) : Block := ⟨min b.base (b.base ^^^ 2 ^ b.order), b.order + 1⟩

/-- The lower half of a block of order `k + 1`. -/
def low (b : Block) : Block := ⟨b.base, b.order - 1⟩

/-- The upper half of a block of order `k + 1`. -/
def high (b : Block) : Block := ⟨b.base + 2 ^ (b.order - 1), b.order - 1⟩

theorem mem_pages : page ∈ b.pages ↔ b.base ≤ page ∧ page < b.base + 2 ^ b.order := Iff.rfl

theorem base_mem_pages (b : Block) : b.base ∈ b.pages :=
  ⟨le_rfl, Nat.lt_add_of_pos_right (Nat.two_pow_pos b.order)⟩

/-- Two blocks share a page unless one ends before the other. -/
theorem apart_of_no_common (none : ∀ page ∈ b.pages, page ∉ c.pages) :
    b.base + 2 ^ b.order ≤ c.base ∨ c.base + 2 ^ c.order ≤ b.base := by
  by_contra overlap
  have positiveB : 0 < 2 ^ b.order := Nat.two_pow_pos b.order
  have positiveC : 0 < 2 ^ c.order := Nat.two_pow_pos c.order
  exact none (max b.base c.base) (mem_pages.mpr (by omega)) (mem_pages.mpr (by omega))

/-- An aligned block is one residue-free cell of the grid of its order. -/
theorem Aligned.mem_pages_iff (aligned : b.Aligned) :
    page ∈ b.pages ↔ page / 2 ^ b.order = b.base / 2 ^ b.order := by
  obtain ⟨index, eq⟩ := aligned
  have positive := Nat.two_pow_pos b.order
  rw [mem_pages, eq, Nat.mul_div_cancel_left _ positive, Nat.div_eq_iff positive,
    Nat.mul_comm index]
  omega

/-- Aligned blocks that share a number are nested. -/
theorem Aligned.pages_subset (alignedB : b.Aligned) (alignedC : c.Aligned)
    (smaller : b.order ≤ c.order) (inB : page ∈ b.pages) (inC : page ∈ c.pages) :
    b.pages ⊆ c.pages := by
  intro other member
  obtain ⟨gap, eq⟩ := Nat.exists_eq_add_of_le smaller
  rw [alignedC.mem_pages_iff] at inC ⊢
  rw [alignedB.mem_pages_iff] at inB member
  rw [← inC, eq, Nat.pow_add, ← Nat.div_div_eq_div_mul, ← Nat.div_div_eq_div_mul, member, inB]

/-- Aligned blocks of one order that share a number are equal. -/
theorem Aligned.eq_of_mem (alignedB : b.Aligned) (alignedC : c.Aligned)
    (same : b.order = c.order) (inB : page ∈ b.pages) (inC : page ∈ c.pages) : b = c := by
  have forward := alignedB.pages_subset alignedC same.le inB inC b.base_mem_pages
  have backward := alignedC.pages_subset alignedB same.ge inC inB c.base_mem_pages
  exact Block.ext (le_antisymm backward.1 forward.1) same

/-- The order of a block is determined by the inclusion of its numbers. -/
theorem order_le_of_subset (subset : b.pages ⊆ c.pages) : b.order ≤ c.order := by
  have positive := Nat.two_pow_pos b.order
  have first := subset b.base_mem_pages
  have last : b.base + 2 ^ b.order - 1 ∈ c.pages := subset (mem_pages.mpr (by omega))
  rw [mem_pages] at first last
  have shorter : 2 ^ b.order ≤ 2 ^ c.order := by omega
  exact (Nat.pow_le_pow_iff_right (by omega)).mp shorter

theorem low_pages_union_high_pages (b : Block) (positive : 0 < b.order) :
    b.pages = b.low.pages ∪ b.high.pages := by
  have double : 2 ^ b.order = 2 ^ (b.order - 1) + 2 ^ (b.order - 1) := by
    rw [← Nat.two_mul, ← Nat.pow_succ', Nat.succ_eq_add_one, Nat.sub_add_cancel positive]
  ext page
  simp only [Set.mem_union, mem_pages, low, high]
  omega

theorem low_pages_disjoint_high_pages (b : Block) : Disjoint b.low.pages b.high.pages := by
  rw [Set.disjoint_left]
  intro page inLow inHigh
  simp only [mem_pages, low, high] at inLow inHigh
  omega

section

variable (aligned : b.Aligned)
include aligned

theorem Aligned.low : b.low.Aligned :=
  (Nat.pow_dvd_pow 2 (Nat.sub_le b.order 1)).trans aligned

theorem Aligned.high : b.high.Aligned :=
  Nat.dvd_add aligned.low (Nat.dvd_refl _)

/-- Flipping the order's bit of an aligned base moves to the other half. -/
theorem Aligned.low_buddy (positive : 0 < b.order) :
    b.low.buddy = b.high := by
  obtain ⟨order, eq⟩ := Nat.exists_eq_succ_of_ne_zero positive.ne'
  obtain ⟨index, base⟩ := aligned
  have flip : (2 * index) ^^^ 1 = 2 * index + 1 := Nat.xor_one_of_even (even_two_mul index)
  have shifted : ((2 * index) ^^^ 1) <<< order = (2 * index) <<< order ^^^ 1 <<< order :=
    Nat.shiftLeft_xor_distrib
  rw [flip, Nat.shiftLeft_eq, Nat.shiftLeft_eq, Nat.shiftLeft_eq, one_mul] at shifted
  simp only [buddy, Block.low, Block.high, base, eq, Nat.succ_eq_add_one, Nat.add_sub_cancel]
  rw [show 2 ^ (order + 1) * index = 2 * index * 2 ^ order by ring, ← shifted]
  ring_nf

omit aligned in
theorem buddy_buddy (b : Block) : b.buddy.buddy = b :=
  Block.ext (Nat.xor_xor_cancel_right _ _) rfl

theorem Aligned.high_buddy (positive : 0 < b.order) :
    b.high.buddy = b.low := by
  rw [← aligned.low_buddy positive, buddy_buddy]

theorem parent_low (positive : 0 < b.order) : b.low.parent = b := by
  have flipped : b.base ^^^ 2 ^ (b.order - 1) = b.base + 2 ^ (b.order - 1) :=
    congrArg Block.base (aligned.low_buddy positive)
  refine Block.ext ?_ (Nat.sub_add_cancel positive)
  change min b.base (b.base ^^^ 2 ^ (b.order - 1)) = b.base
  rw [flipped]
  exact min_eq_left (Nat.le_add_right _ _)

end

theorem parent_buddy (b : Block) : b.buddy.parent = b.parent := by
  refine Block.ext ?_ rfl
  simp only [parent, buddy, Nat.xor_xor_cancel_right]
  exact min_comm _ _

section

variable (aligned : b.Aligned)
include aligned

theorem parent_high (positive : 0 < b.order) : b.high.parent = b := by
  rw [← aligned.low_buddy positive, parent_buddy, parent_low aligned positive]

/-- An aligned block is one half of its parent, and its buddy is the other. -/
theorem Aligned.half_cases :
    b.parent.Aligned ∧
      ((b = b.parent.low ∧ b.buddy = b.parent.high) ∨
        (b = b.parent.high ∧ b.buddy = b.parent.low)) := by
  obtain ⟨index, eq⟩ := aligned
  let whole : Block := ⟨2 ^ (b.order + 1) * (index / 2), b.order + 1⟩
  have wholeAligned : whole.Aligned := ⟨index / 2, rfl⟩
  have positive : 0 < whole.order := Nat.succ_pos _
  rcases Nat.even_or_odd index with even | odd
  · have lower : b = whole.low := by
      refine Block.ext ?_ rfl
      change b.base = 2 ^ (b.order + 1) * (index / 2)
      rw [eq, Nat.pow_succ, Nat.mul_assoc, Nat.two_mul_div_two_of_even even]
    have parent : b.parent = whole := by rw [lower, parent_low wholeAligned positive]
    rw [parent]
    refine ⟨wholeAligned, Or.inl ⟨lower, ?_⟩⟩
    rw [lower, wholeAligned.low_buddy positive]
  · have upper : b = whole.high := by
      refine Block.ext ?_ rfl
      calc b.base = 2 ^ b.order * (2 * (index / 2) + 1) := by
            rw [eq, Nat.two_mul_div_two_add_one_of_odd odd]
        _ = 2 ^ (b.order + 1) * (index / 2) + 2 ^ b.order := by ring
    have parent : b.parent = whole := by rw [upper, parent_high wholeAligned positive]
    rw [parent]
    refine ⟨wholeAligned, Or.inr ⟨upper, ?_⟩⟩
    rw [upper, wholeAligned.high_buddy positive]

theorem Aligned.parent : b.parent.Aligned := aligned.half_cases.1

/-- A block and its buddy fill the parent. -/
theorem Aligned.parent_pages : b.parent.pages = b.pages ∪ b.buddy.pages := by
  have whole := low_pages_union_high_pages b.parent (Nat.succ_pos _)
  rcases aligned.half_cases.2 with ⟨own, other⟩ | ⟨own, other⟩
  · rw [whole, other, ← own]
  · rw [whole, other, ← own, Set.union_comm]

/-- A block and its buddy share no number. -/
theorem Aligned.disjoint_buddy : Disjoint b.pages b.buddy.pages := by
  have apart := low_pages_disjoint_high_pages b.parent
  rcases aligned.half_cases.2 with ⟨own, other⟩ | ⟨own, other⟩
  · rw [other]; rwa [← own] at apart
  · rw [other]; rw [← own] at apart; exact apart.symm

theorem Aligned.ne_buddy : b.buddy ≠ b := by
  intro same
  have apart := aligned.disjoint_buddy
  rw [same] at apart
  exact Set.disjoint_left.mp apart b.base_mem_pages b.base_mem_pages

end

/-- A larger aligned block that meets a block holds its parent. -/
theorem Aligned.parent_pages_subset (alignedB : b.Aligned) (alignedC : c.Aligned)
    (smaller : b.order < c.order) (inB : page ∈ b.pages) (inC : page ∈ c.pages) :
    b.parent.pages ⊆ c.pages := by
  refine alignedB.parent.pages_subset alignedC smaller ?_ inC
  rw [alignedB.parent_pages]
  exact Set.mem_union_left _ inB

end Block

end DyadicBlocks
