import AlkOS.Mem.Slab.Basic

/-!
# The free objects of one slab

A freelist is an array of indices with a head, in the slab's metadata or in the first
entry of the array. The lemmas say what the three ways of writing it do to the chain of
indices.
-/

namespace AlkOS.Mem.SlabLayout

variable {layout : SlabLayout} {memory memory' : Bytes} {base freelist idx other value head : ℕ}
  {next next' : ℕ → ℕ} {chain rest : List ℕ}

/-- Following `next` from `head` visits the indices of `chain` and ends in the
sentinel. -/
def FreeChain (next : ℕ → ℕ) : ℕ → List ℕ → Prop
  | head, [] => head = kFreelistSentinel
  | head, idx :: rest => head = idx ∧ FreeChain next (next idx) rest

theorem FreeChain.congr (chained : FreeChain next head chain)
    (same : ∀ idx ∈ chain, next' idx = next idx) : FreeChain next' head chain := by
  induction chain generalizing head with
  | nil => exact chained
  | cons idx rest ih =>
    obtain ⟨first, tail⟩ := chained
    refine ⟨first, ?_⟩
    rw [same idx List.mem_cons_self]
    exact ih tail fun other member => same other (List.mem_cons_of_mem idx member)

/-- The freelist of a slab visits `chain`: different indices of its objects. -/
structure Freelist (layout : SlabLayout) (memory : Bytes) (base freelist : ℕ)
    (chain : List ℕ) : Prop where
  chained : FreeChain (layout.nextIdx memory base) (layout.headIdx memory freelist) chain
  nodup : chain.Nodup
  bounded : ∀ idx ∈ chain, idx < layout.numObjects

/-- The bytes of a freelist array. -/
def arraySize (layout : SlabLayout) : ℕ :=
  layout.metadataSize.bytes * (layout.numObjects + layout.shift)

/-- The array lies in the address space, and entries tell indices from the sentinel. -/
structure Room (layout : SlabLayout) (base : ℕ) : Prop where
  inside : base + layout.arraySize ≤ 2 ^ 64
  narrow : layout.numObjects < 256 ^ layout.metadataSize.bytes

theorem bytes_pos (width : MetadataSize) : 0 < width.bytes := by
  cases width <;> decide

theorem numObjects_lt (narrow : layout.numObjects < 256 ^ layout.metadataSize.bytes) :
    layout.numObjects ≤ kFreelistSentinel := by
  have bound : 256 ^ layout.metadataSize.bytes ≤ 2 ^ 64 := by
    cases layout.metadataSize <;> decide
  unfold kFreelistSentinel
  omega

namespace Room

/-- Entries lie in the array. -/
theorem slot_eq (room : Room layout base) (inside : idx < layout.numObjects + layout.shift) :
    layout.slot base idx = base + layout.metadataSize.bytes * idx ∧
      layout.slot base idx + layout.metadataSize.bytes ≤ base + layout.arraySize := by
  have next : layout.metadataSize.bytes * idx + layout.metadataSize.bytes ≤ layout.arraySize := by
    exact Nat.mul_le_mul_left _ inside
  have below : base + layout.metadataSize.bytes * idx < 2 ^ 64 := by
    have := room.inside
    have := bytes_pos layout.metadataSize
    omega
  have same : layout.slot base idx = base + layout.metadataSize.bytes * idx :=
    Nat.mod_eq_of_lt below
  omega

theorem entry_eq (room : Room layout base) (inside : idx < layout.numObjects) :
    (idx + layout.shift) % 2 ^ 64 = idx + layout.shift := by
  have wide : layout.numObjects + layout.shift ≤ layout.arraySize :=
    Nat.le_mul_of_pos_left _ (bytes_pos layout.metadataSize)
  have := room.inside
  exact Nat.mod_eq_of_lt (by omega)

/-- An index, or the sentinel, can be read back from the entry it was written to. -/
theorem get_set_self (room : Room layout base)
    (value_ok : value < layout.numObjects ∨ value = kFreelistSentinel) :
    layout.getNextFreeIdx (layout.setNextFreeIdx memory base idx value) base idx = value := by
  unfold getNextFreeIdx setNextFreeIdx
  rw [Bytes.readLE_writeLE]
  have narrow := room.narrow
  rcases value_ok with below | rfl
  · have kept : value % 256 ^ layout.metadataSize.bytes = value :=
      Nat.mod_eq_of_lt (below.trans narrow)
    simp only [kept]
    rw [if_neg (by omega)]
  · have ones : kFreelistSentinel % 256 ^ layout.metadataSize.bytes =
        256 ^ layout.metadataSize.bytes - 1 := by
      cases layout.metadataSize <;> decide
    simp only [ones, ↓reduceIte]

variable (room : Room layout base) (inside : idx < layout.numObjects + layout.shift)
include room inside

/-- Writing one entry keeps the others. -/
theorem get_set_other (there : other < layout.numObjects + layout.shift) (apart : other ≠ idx) :
    layout.getNextFreeIdx (layout.setNextFreeIdx memory base idx value) base other =
      layout.getNextFreeIdx memory base other := by
  obtain ⟨atIdx, _⟩ := room.slot_eq inside
  obtain ⟨atOther, _⟩ := room.slot_eq there
  have disjoint : layout.slot base other + layout.metadataSize.bytes ≤ layout.slot base idx ∨
      layout.slot base idx + layout.metadataSize.bytes ≤ layout.slot base other := by
    rcases Nat.lt_or_gt_of_ne apart with less | more
    · have := Nat.mul_le_mul_left layout.metadataSize.bytes (Nat.succ_le_of_lt less)
      rw [Nat.mul_succ] at this
      omega
    · have := Nat.mul_le_mul_left layout.metadataSize.bytes (Nat.succ_le_of_lt more)
      rw [Nat.mul_succ] at this
      omega
  unfold getNextFreeIdx setNextFreeIdx Bytes.writeLE
  rw [Bytes.readLE_blit_of_disjoint disjoint]

/-- Writing an entry stays inside the array. -/
theorem set_outside {address : ℕ} (outside : address < base ∨ base + layout.arraySize ≤ address) :
    layout.setNextFreeIdx memory base idx value address = memory address := by
  obtain ⟨atIdx, below⟩ := room.slot_eq inside
  refine Bytes.blit_outside ?_
  omega

/-- Entries depend on the bytes of the array only. -/
theorem get_congr
    (same : ∀ address, base ≤ address → address < base + layout.arraySize →
      memory' address = memory address) :
    layout.getNextFreeIdx memory' base idx = layout.getNextFreeIdx memory base idx := by
  obtain ⟨atIdx, below⟩ := room.slot_eq inside
  unfold getNextFreeIdx
  rw [Bytes.readLE_congr fun i small => same _ (by omega) (by omega)]

end Room

namespace Freelist

theorem head_ok (list : Freelist layout memory base freelist chain) :
    layout.headIdx memory freelist < layout.numObjects ∨
      layout.headIdx memory freelist = kFreelistSentinel := by
  have chained := list.chained
  cases chain with
  | nil => exact Or.inr chained
  | cons idx rest =>
    rw [chained.1]
    exact Or.inl (list.bounded idx List.mem_cons_self)

/-- The array of an off-slab freelist is where the metadata points. -/
def Based (layout : SlabLayout) (base freelist : ℕ) : Prop :=
  layout.isOffSlab = true → base = freelist

/-- A freelist depends on the bytes of its array only. -/
theorem congr (list : Freelist layout memory base freelist chain) (room : Room layout base)
    (based : Based layout base freelist)
    (same : ∀ address, base ≤ address → address < base + layout.arraySize →
      memory' address = memory address) : Freelist layout memory' base freelist chain := by
  refine ⟨?_, list.nodup, list.bounded⟩
  have headSame : layout.headIdx memory' freelist = layout.headIdx memory freelist := by
    unfold headIdx
    by_cases off : layout.isOffSlab = true
    · rw [if_pos off, if_pos off, ← based off]
      exact room.get_congr (by simp only [shift, off, ↓reduceIte]; omega) same
    · rw [if_neg off, if_neg off]
  rw [headSame]
  refine list.chained.congr fun idx member => ?_
  have inside := list.bounded idx member
  exact room.get_congr (by omega) same

section

variable (list : Freelist layout memory base freelist (idx :: rest))
include list

/-- The first index can be read, and what follows it is an index or the sentinel. -/
theorem next_ok :
    layout.headIdx memory freelist = idx ∧
      (layout.nextIdx memory base idx < layout.numObjects ∨
        layout.nextIdx memory base idx = kFreelistSentinel) := by
  obtain ⟨first, tail⟩ := list.chained
  refine ⟨first, ?_⟩
  cases rest with
  | nil => exact Or.inr tail
  | cons second rest =>
    rw [tail.1]
    exact Or.inl (list.bounded second (List.mem_cons_of_mem idx List.mem_cons_self))

theorem tail_nodup : rest.Nodup :=
  (List.nodup_cons.mp list.nodup).2

theorem tail_bounded : ∀ other ∈ rest, other < layout.numObjects :=
  fun other member => list.bounded other (List.mem_cons_of_mem idx member)

/-- Taking the first index off an on-slab freelist. -/
theorem pop_onSlab (on : layout.isOffSlab = false) :
    Freelist layout memory base (layout.nextIdx memory base idx) rest := by
  refine ⟨?_, list.tail_nodup, list.tail_bounded⟩
  unfold headIdx
  rw [on]
  exact list.chained.2

end

/-- Entries of objects are kept when the head entry in front of them is written. -/
theorem nextIdx_set_head (room : Room layout base) (off : layout.isOffSlab = true)
    (inside : other < layout.numObjects) :
    layout.nextIdx (layout.setNextFreeIdx memory base 0 value) base other =
      layout.nextIdx memory base other := by
  have shifted : layout.shift = 1 := if_pos off
  unfold nextIdx
  rw [room.entry_eq inside]
  exact room.get_set_other (by omega) (by omega) (by omega)

/-- Taking the first index off an off-slab freelist. -/
theorem pop_offSlab (list : Freelist layout memory base freelist (idx :: rest))
    (room : Room layout base) (based : Based layout base freelist)
    (off : layout.isOffSlab = true) :
    Freelist layout (layout.setNextFreeIdx memory base 0 (layout.nextIdx memory base idx)) base
      freelist rest := by
  refine ⟨?_, list.tail_nodup, list.tail_bounded⟩
  have headRead : layout.headIdx (layout.setNextFreeIdx memory base 0
      (layout.nextIdx memory base idx)) freelist = layout.nextIdx memory base idx := by
    unfold headIdx
    rw [if_pos off, ← based off]
    exact room.get_set_self list.next_ok.2
  rw [headRead]
  exact list.chained.2.congr fun other member =>
    nextIdx_set_head room off (list.tail_bounded other member)

variable (list : Freelist layout memory base freelist chain) (inside : idx < layout.numObjects)
  (fresh : idx ∉ chain)
include list inside fresh

/-- The entry of a new first index leads to the old first index. -/
theorem nextIdx_set_entry (room : Room layout base) :
    FreeChain (layout.nextIdx (layout.setNextFreeIdx memory base (idx + layout.shift)
      (layout.headIdx memory freelist)) base) idx (idx :: chain) := by
  refine ⟨rfl, ?_⟩
  have entry : layout.nextIdx (layout.setNextFreeIdx memory base (idx + layout.shift)
      (layout.headIdx memory freelist)) base idx = layout.headIdx memory freelist := by
    unfold nextIdx
    rw [room.entry_eq inside]
    exact room.get_set_self list.head_ok
  rw [entry]
  refine list.chained.congr fun other member => ?_
  have there := list.bounded other member
  have apart : other ≠ idx := fun same => fresh (same ▸ member)
  unfold nextIdx
  rw [room.entry_eq there]
  exact room.get_set_other (by omega) (by omega) (by omega)

theorem cons_nodup_bounded :
    (idx :: chain).Nodup ∧ ∀ other ∈ idx :: chain, other < layout.numObjects := by
  exact ⟨List.nodup_cons.mpr ⟨fresh, list.nodup⟩, List.forall_mem_cons.mpr ⟨inside, list.bounded⟩⟩

/-- Putting an index in front of an on-slab freelist. -/
theorem push_onSlab (room : Room layout base) (on : layout.isOffSlab = false) :
    Freelist layout (layout.setNextFreeIdx memory base (idx + layout.shift)
      (layout.headIdx memory freelist)) base idx (idx :: chain) := by
  obtain ⟨nodup, bounded⟩ := list.cons_nodup_bounded inside fresh
  refine ⟨?_, nodup, bounded⟩
  have headRead : layout.headIdx (layout.setNextFreeIdx memory base (idx + layout.shift)
      (layout.headIdx memory freelist)) idx = idx := by
    rw [headIdx, on]
    rfl
  rw [headRead]
  exact list.nextIdx_set_entry inside fresh room

/-- Putting an index in front of an off-slab freelist. -/
theorem push_offSlab (room : Room layout base) (based : Based layout base freelist)
    (off : layout.isOffSlab = true) :
    Freelist layout (layout.setNextFreeIdx (layout.setNextFreeIdx memory base (idx + layout.shift)
      (layout.headIdx memory freelist)) base 0 idx) base freelist (idx :: chain) := by
  obtain ⟨nodup, bounded⟩ := list.cons_nodup_bounded inside fresh
  refine ⟨?_, nodup, bounded⟩
  have headRead : layout.headIdx (layout.setNextFreeIdx (layout.setNextFreeIdx memory base
      (idx + layout.shift) (layout.headIdx memory freelist)) base 0 idx) freelist = idx := by
    unfold headIdx
    rw [if_pos off, ← based off]
    exact room.get_set_self (Or.inl inside)
  rw [headRead]
  exact (list.nextIdx_set_entry inside fresh room).congr fun other member =>
    nextIdx_set_head room off (bounded other member)

end Freelist

/-- The entries written so far lead upwards, and other memory is as before. -/
theorem foldl_linkFree (room : Room layout base) (count : ℕ) (bound : count ≤ layout.numObjects)
    (memory : Bytes) :
    (∀ i < count, layout.nextIdx ((List.range count).foldl (layout.linkFree base) memory) base i =
        if i = layout.numObjects - 1 then kFreelistSentinel else i + 1) ∧
      (∀ entry < layout.shift,
        layout.getNextFreeIdx ((List.range count).foldl (layout.linkFree base) memory) base entry =
          layout.getNextFreeIdx memory base entry) ∧
      ∀ address, address < base ∨ base + layout.arraySize ≤ address →
        (List.range count).foldl (layout.linkFree base) memory address = memory address := by
  induction count with
  | zero => exact ⟨fun i absent => absurd absent (by omega), fun _ _ => rfl, fun _ _ => rfl⟩
  | succ count ih =>
    obtain ⟨entries, front, outside⟩ := ih (by omega)
    rw [List.range_succ, List.foldl_append, List.foldl_cons, List.foldl_nil]
    generalize (List.range count).foldl (layout.linkFree base) memory = written at *
    have stored : (if count = layout.numObjects - 1 then kFreelistSentinel else count + 1) <
          layout.numObjects ∨
        (if count = layout.numObjects - 1 then kFreelistSentinel else count + 1) =
          kFreelistSentinel := by
      by_cases last : count = layout.numObjects - 1
      · exact Or.inr (if_pos last)
      · rw [if_neg last]
        exact Or.inl (by omega)
    refine ⟨fun i small => ?_, fun entry small => ?_, fun address away => ?_⟩
    · unfold nextIdx linkFree
      rw [room.entry_eq (by omega)]
      by_cases same : i = count
      · subst same
        exact room.get_set_self stored
      · rw [room.get_set_other (by omega) (by omega) (by omega), ← entries i (by omega)]
        unfold nextIdx
        rw [room.entry_eq (by omega)]
    · rw [← front entry small]
      exact room.get_set_other (by omega) (by omega) (by omega)
    · rw [← outside address away]
      exact room.set_outside (by omega) away

/-- Indices that lead upwards chain up to the sentinel. -/
theorem freeChain_range (positive : 0 < layout.numObjects)
    (upwards : ∀ i < layout.numObjects,
      next i = if i = layout.numObjects - 1 then kFreelistSentinel else i + 1) :
    FreeChain next 0 (List.range layout.numObjects) := by
  have chained : ∀ count start, start + count + 1 = layout.numObjects →
      FreeChain next start (List.range' start (count + 1)) := by
    intro count
    induction count with
    | zero =>
      intro start last
      refine ⟨rfl, ?_⟩
      rw [upwards start (by omega), if_pos (by omega)]
      rfl
    | succ count ih =>
      intro start left
      refine ⟨rfl, ?_⟩
      rw [upwards start (by omega), if_neg (by omega)]
      exact ih (start + 1) (by omega)
  have whole := chained (layout.numObjects - 1) 0 (by omega)
  rw [Nat.sub_add_cancel positive] at whole
  rw [List.range_eq_range']
  exact whole

/-- A new slab's freelist visits every object, and only its array was written. -/
theorem freelist_writeFreelist (room : Room layout base) (positive : 0 < layout.numObjects)
    (memory : Bytes) :
    Freelist layout (layout.writeFreelist base memory) base
        (if layout.isOffSlab then base else 0) (List.range layout.numObjects) ∧
      ∀ address, address < base ∨ base + layout.arraySize ≤ address →
        layout.writeFreelist base memory address = memory address := by
  unfold writeFreelist
  obtain ⟨entries, front, outside⟩ := foldl_linkFree room layout.numObjects le_rfl
    (if layout.isOffSlab then layout.setNextFreeIdx memory base 0 0 else memory)
  refine ⟨⟨?_, List.nodup_range, fun idx member => List.mem_range.mp member⟩, ?_⟩
  · have headRead : layout.headIdx ((List.range layout.numObjects).foldl (layout.linkFree base)
        (if layout.isOffSlab then layout.setNextFreeIdx memory base 0 0 else memory))
        (if layout.isOffSlab then base else 0) = 0 := by
      unfold headIdx
      by_cases off : layout.isOffSlab = true
      · simp only [off, ↓reduceIte] at front ⊢
        rw [front 0 (by simp only [shift, off, ↓reduceIte, Nat.zero_lt_one])]
        exact room.get_set_self (Or.inl positive)
      · simp only [off]
        rfl
    rw [headRead]
    exact freeChain_range positive entries
  · intro address away
    rw [outside address away]
    by_cases off : layout.isOffSlab = true
    · rw [if_pos off]
      exact room.set_outside (by simp only [shift]; omega) away
    · rw [if_neg off]

end AlkOS.Mem.SlabLayout
