import Mathlib

/-!
# Page map entries

The 64-bit words of x86_64 page tables. The specialisations of `PageMapEntry` share the
`present` bit, the `page_size` bit and, apart from the huge page formats, the 40-bit
`frame` field.
-/

namespace AlkOS.Hal

/-- The architecture independent flags of a mapping. -/
structure PageFlags where
  present : Bool
  writable : Bool
  userAccessible : Bool
  writeThrough : Bool
  cacheDisable : Bool
  isGlobal : Bool
  noExecute : Bool
deriving DecidableEq, Repr

/-- The flags of a page of kernel data. -/
def PageFlags.data : PageFlags := ⟨true, true, false, false, false, false, false⟩

def kPresentBit : BitVec 64 := (1 : BitVec 64) <<< 0
def kWriteBit : BitVec 64 := (1 : BitVec 64) <<< 1
def kUserAccessibleBit : BitVec 64 := (1 : BitVec 64) <<< 2
def kWriteThroughCachingBit : BitVec 64 := (1 : BitVec 64) <<< 3
def kDisableCacheBit : BitVec 64 := (1 : BitVec 64) <<< 4
def kGlobalBit : BitVec 64 := (1 : BitVec 64) <<< 8
def kNoExecuteBit : BitVec 64 := (1 : BitVec 64) <<< 63

/-- The table flags of every entry that `Map` creates above the leaf. -/
def kDefTableFlags : BitVec 64 := kPresentBit ||| kWriteBit ||| kUserAccessibleBit

def toArchFlags (flags : PageFlags) : BitVec 64 :=
  (if flags.present then kPresentBit else 0) ||| (if flags.writable then kWriteBit else 0) |||
    (if flags.userAccessible then kUserAccessibleBit else 0) |||
    (if flags.writeThrough then kWriteThroughCachingBit else 0) |||
    (if flags.cacheDisable then kDisableCacheBit else 0) |||
    (if flags.isGlobal then kGlobalBit else 0) ||| (if flags.noExecute then kNoExecuteBit else 0)

/-- One word of a page table. -/
abbrev PageMapEntry := BitVec 64

namespace PageMapEntry

def isPresent (entry : PageMapEntry) : Bool := entry.getLsbD 0

/-- The `page_size` bit. `IsHuge` reads it at levels 3 and 2 and is false at the
others. -/
def isHuge (level : ℕ) (entry : PageMapEntry) : Bool :=
  (level = 3 || level = 2) && entry.getLsbD 7

/-- The 40-bit `frame` field. -/
def frame (entry : PageMapEntry) : BitVec 40 := entry.extractLsb' 12 40

/-- Assign the 40-bit `frame` field. -/
def setFrame (entry : PageMapEntry) (frame : BitVec 40) : PageMapEntry :=
  entry &&& ~~~((BitVec.allOnes 40).zeroExtend 64 <<< 12) ||| frame.zeroExtend 64 <<< 12

/-- `SetNextLevelTable` with the number of the table's frame. The other bits of
the entry are kept. -/
def setNextLevelTable (entry : PageMapEntry) (table : ℕ) (flags : BitVec 64) : PageMapEntry :=
  entry.setFrame (BitVec.ofNat 40 table) ||| flags

/-- `GetNextLevelTable`, as the number of the table's frame. -/
def getNextLevelTable (entry : PageMapEntry) : ℕ := entry.frame.toNat

/-- `GetFrameAddress` of a level 1 entry. -/
def getFrameAddress (entry : PageMapEntry) : BitVec 64 := entry.frame.zeroExtend 64 <<< 12

/-- `GetFrameAddress` of a level 3 entry that maps a 1 GiB page. -/
def getFrameAddress1Gb (entry : PageMapEntry) : BitVec 64 :=
  (entry.extractLsb' 30 22).zeroExtend 64 <<< 30

/-- `GetFrameAddress` of a level 2 entry that maps a 2 MiB page. -/
def getFrameAddress2Mb (entry : PageMapEntry) : BitVec 64 :=
  (entry.extractLsb' 21 31).zeroExtend 64 <<< 21

/-- `SetFrameAddress` of a level 1 entry. -/
def setFrameAddress (pageAddr : BitVec 64) (flags : BitVec 64) : PageMapEntry :=
  setFrame 0 ((pageAddr >>> 12).truncate 40) ||| flags

variable {entry : PageMapEntry} {flags addr : BitVec 64} {frame : BitVec 40} {bit level : ℕ}

/-- The frame field is replaced. -/
theorem getLsbD_setFrame (inside : bit < 64) : (entry.setFrame frame).getLsbD bit =
    if 12 ≤ bit ∧ bit < 52 then frame.getLsbD (bit - 12) else entry.getLsbD bit := by
  unfold setFrame
  simp only [BitVec.getLsbD_or, BitVec.getLsbD_and, BitVec.getLsbD_not,
    BitVec.getLsbD_shiftLeft, BitVec.getLsbD_setWidth, BitVec.getLsbD_allOnes, inside]
  by_cases low : bit < 12
  · simp [low, Nat.not_le.mpr low]
  · by_cases high : bit < 52
    · simp [low, high, show bit - 12 < 64 by omega, show bit - 12 < 40 by omega]
    · have beyond : frame.getLsbD (bit - 12) = false :=
        BitVec.getLsbD_of_ge frame (bit - 12) (by omega)
      simp [high, show ¬ bit - 12 < 40 by omega, beyond]

theorem getLsbD_bit (position : ℕ) (inside : bit < 64) :
    ((1 : BitVec 64) <<< position).getLsbD bit = decide (bit = position) := by
  simp only [BitVec.getLsbD_shiftLeft, inside]
  by_cases low : bit < position
  · simp [low, show bit ≠ position by omega]
  · by_cases same : bit = position
    · simp [same]
    · have later : bit - position ≠ 0 := by omega
      simp [same, later]

theorem getLsbD_chosen (chosen : Bool) {position : ℕ} (inside : bit < 64)
    (apart : bit ≠ position) :
    (if chosen then (1 : BitVec 64) <<< position else 0).getLsbD bit = false := by
  cases chosen with
  | false => exact BitVec.getLsbD_zero
  | true =>
    rw [if_pos rfl, getLsbD_bit position inside]
    exact decide_eq_false apart

/-- A flag word sets only bits outside of the `frame` field and not the
`page_size` bit. -/
theorem getLsbD_toArchFlags (flags : PageFlags) (inside : bit < 64)
    (unused : bit = 7 ∨ 12 ≤ bit ∧ bit < 52) : (toArchFlags flags).getLsbD bit = false := by
  simp only [toArchFlags, BitVec.getLsbD_or, Bool.or_eq_false_iff]
  refine ⟨⟨⟨⟨⟨⟨?_, ?_⟩, ?_⟩, ?_⟩, ?_⟩, ?_⟩, ?_⟩
  all_goals exact getLsbD_chosen _ inside (by omega)

/-- The present bit. -/
theorem getLsbD_toArchFlags_zero (flags : PageFlags) :
    (toArchFlags flags).getLsbD 0 = flags.present := by
  have clear : ∀ (chosen : Bool) (position : ℕ), position ≠ 0 →
      (if chosen then (1 : BitVec 64) <<< position else 0).getLsbD 0 = false :=
    fun chosen position apart => getLsbD_chosen chosen (by decide) apart.symm
  simp only [toArchFlags, BitVec.getLsbD_or, kWriteBit, kUserAccessibleBit,
    kWriteThroughCachingBit, kDisableCacheBit, kGlobalBit, kNoExecuteBit]
  rw [clear _ 1 (by decide), clear _ 2 (by decide), clear _ 3 (by decide), clear _ 4 (by decide),
    clear _ 8 (by decide), clear _ 63 (by decide)]
  cases flags.present with
  | false => rfl
  | true => rfl

theorem kDefTableFlags_eq : kDefTableFlags =
    toArchFlags ⟨true, true, true, false, false, false, false⟩ := by decide

section Fields

variable (entry : PageMapEntry) (flags : PageFlags) (frame : BitVec 40)

/-- The frame survives the flags of a flag word. -/
theorem frame_setFrame_or :
    PageMapEntry.frame (entry.setFrame frame ||| toArchFlags flags) = frame := by
  apply BitVec.eq_of_getLsbD_eq
  intro bit inside
  have clear : (toArchFlags flags).getLsbD (12 + bit) = false :=
    getLsbD_toArchFlags flags (by omega) (Or.inr (by omega))
  simp only [PageMapEntry.frame, BitVec.getLsbD_extractLsb', inside, decide_true, Bool.true_and,
    BitVec.getLsbD_or, clear, Bool.or_false]
  rw [getLsbD_setFrame (by omega), if_pos (by omega), Nat.add_sub_cancel_left]

theorem isPresent_setFrame_or :
    isPresent (entry.setFrame frame ||| toArchFlags flags) =
      (entry.isPresent || flags.present) := by
  simp only [isPresent, BitVec.getLsbD_or, getLsbD_toArchFlags_zero]
  rw [getLsbD_setFrame (by decide), if_neg (by decide)]

theorem isHuge_setFrame_or (level : ℕ) :
    isHuge level (entry.setFrame frame ||| toArchFlags flags) = entry.isHuge level := by
  simp only [isHuge, BitVec.getLsbD_or]
  rw [getLsbD_toArchFlags flags (by decide) (Or.inl rfl), getLsbD_setFrame (by decide),
    if_neg (by decide), Bool.or_false]

end Fields

theorem getNextLevelTable_setNextLevelTable {table : ℕ} (bound : table < 2 ^ 40) :
    (entry.setNextLevelTable table kDefTableFlags).getNextLevelTable = table := by
  unfold getNextLevelTable setNextLevelTable
  rw [kDefTableFlags_eq, frame_setFrame_or, BitVec.toNat_ofNat, Nat.mod_eq_of_lt bound]

theorem isPresent_setNextLevelTable {table : ℕ} :
    (entry.setNextLevelTable table kDefTableFlags).isPresent = true := by
  unfold setNextLevelTable
  rw [kDefTableFlags_eq, isPresent_setFrame_or, Bool.or_true]

theorem isHuge_setNextLevelTable {table : ℕ} :
    (entry.setNextLevelTable table kDefTableFlags).isHuge level = entry.isHuge level := by
  unfold setNextLevelTable
  rw [kDefTableFlags_eq, isHuge_setFrame_or]

theorem isPresent_setFrameAddress (flags : PageFlags) :
    (setFrameAddress addr (toArchFlags flags)).isPresent = flags.present := by
  unfold setFrameAddress
  rw [isPresent_setFrame_or]
  exact Bool.false_or _

/-- A page aligned address below `2 ^ 52` is read back. -/
theorem getFrameAddress_setFrameAddress (flags : PageFlags) (aligned : addr.toNat % 4096 = 0)
    (bound : addr.toNat < 2 ^ 52) :
    (setFrameAddress addr (toArchFlags flags)).getFrameAddress = addr := by
  unfold getFrameAddress setFrameAddress
  rw [frame_setFrame_or]
  apply BitVec.eq_of_toNat_eq
  simp only [BitVec.toNat_shiftLeft, BitVec.toNat_setWidth,
    BitVec.toNat_ushiftRight]
  omega

end PageMapEntry

end AlkOS.Hal
