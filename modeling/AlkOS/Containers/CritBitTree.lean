import AlkOS.Foundation.BitTrie
import AlkOS.Kernel.CString
import AlkOS.Mem.Heap

/-!
# Crit-bit trees

`data_structures::CritBitTree`. An inner node tests one bit of one byte of a key. The
answers to the allocations of nodes are arguments of `insert`. Keys are copied by
`strncpy` with the size of their block, which stores a byte behind the block if the key
fills it. Only keys are part of the memory; in the source such a byte may hit a node as
well.
-/

namespace AlkOS.Containers

open Kernel
open Mem.Heap (blockSize le_blockSize)

/-- The child a byte selects: `(1 + (mask | c)) >> 8`. -/
def direction (mask c : UInt8) : ℕ := (1 + (mask ||| c).toNat) >>> 8

/-- The mask with only the given bit cleared. -/
def bitMask (bit : ℕ) : UInt8 := ~~~ (1 <<< UInt8.ofNat bit)

/-- `InternalNode` without its children. A mask clears at most one bit. -/
structure Position where
  byte : ℕ
  mask : UInt8
  single : mask = 255 ∨ ∃ bit < 8, mask = bitMask bit

namespace Position

/-- Nodes are ordered by byte and then by mask. -/
def key (position : Position) : ℕ ×ₗ ℕ := toLex (position.byte, position.mask.toNat)

theorem key_injective : Function.Injective key := by
  intro left right same
  obtain ⟨byte, mask, single⟩ := left
  obtain ⟨byte', mask', single'⟩ := right
  have fields : byte = byte' ∧ mask.toNat = mask'.toNat := Prod.mk.inj (toLex.injective same)
  obtain ⟨rfl, masks⟩ := fields
  obtain rfl := UInt8.toNat_inj.mp masks
  rfl

instance : LinearOrder Position := LinearOrder.lift' key key_injective

theorem lt_iff {left right : Position} : left < right ↔
    left.byte < right.byte ∨ left.byte = right.byte ∧ left.mask < right.mask :=
  Prod.Lex.toLex_lt_toLex

/-- Whether a key goes to the second child of a node. -/
def bit (position : Position) (key : CString) : Bool :=
  direction position.mask (key.byteAt position.byte) == 1

end Position

/-- The most significant bit in which two bytes differ, as a mask. -/
def criticalMask (u p : UInt8) : UInt8 :=
  let newmask := u ^^^ p
  let newmask := newmask ||| (newmask >>> 1)
  let newmask := newmask ||| (newmask >>> 2)
  let newmask := newmask ||| (newmask >>> 4)
  (newmask &&& ~~~ (newmask >>> 1)) ^^^ 255

/-- The critical mask of a difference clears its leading bit. -/
theorem criticalMask_zero (x : UInt8) : (x = 0 ∧ criticalMask x 0 = 255) ∨
    ∃ bit < 8, criticalMask x 0 = bitMask bit ∧ x.toNat.testBit bit = true ∧
      ∀ higher < 8, bit < higher → x.toNat.testBit higher = false := by
  have table : ∀ n : Fin 256, (UInt8.ofNat n.val = 0 ∧ criticalMask (UInt8.ofNat n.val) 0 = 255) ∨
      ∃ bit < 8, criticalMask (UInt8.ofNat n.val) 0 = bitMask bit ∧
        (UInt8.ofNat n.val).toNat.testBit bit = true ∧
        ∀ higher < 8, bit < higher → (UInt8.ofNat n.val).toNat.testBit higher = false := by
    decide +kernel
  have entry := table ⟨x.toNat, x.toNat_lt⟩
  rwa [UInt8.ofNat_toNat] at entry

theorem criticalMask_xor (u p : UInt8) : criticalMask u p = criticalMask (u ^^^ p) 0 := by
  simp only [criticalMask, UInt8.xor_zero]

theorem criticalMask_single (u p : UInt8) :
    criticalMask u p = 255 ∨ ∃ bit < 8, criticalMask u p = bitMask bit := by
  rw [criticalMask_xor]
  rcases criticalMask_zero (u ^^^ p) with ⟨-, whole⟩ | ⟨bit, small, mask, -⟩
  · exact .inl whole
  · exact .inr ⟨bit, small, mask⟩

theorem direction_bitMask {bit : ℕ} (small : bit < 8) (c : UInt8) :
    (direction (bitMask bit) c == 1) = c.toNat.testBit bit := by
  have table : ∀ bit : Fin 8, ∀ n : Fin 256,
      (direction (bitMask bit.val) (UInt8.ofNat n.val) == 1) =
        (UInt8.ofNat n.val).toNat.testBit bit.val := by
    decide +kernel
  have entry := table ⟨bit, small⟩ ⟨c.toNat, c.toNat_lt⟩
  rwa [UInt8.ofNat_toNat] at entry

theorem direction_full (c : UInt8) : (direction 255 c == 1) = true := by
  have table : ∀ n : Fin 256, (direction 255 (UInt8.ofNat n.val) == 1) = true := by
    decide +kernel
  have entry := table ⟨c.toNat, c.toNat_lt⟩
  rwa [UInt8.ofNat_toNat] at entry

theorem bitMask_lt_bitMask {left right : ℕ} (leftSmall : left < 8) (rightSmall : right < 8) :
    bitMask left < bitMask right ↔ right < left := by
  have table : ∀ left right : Fin 8, bitMask left.val < bitMask right.val ↔
      right.val < left.val := by
    decide +kernel
  exact table ⟨left, leftSmall⟩ ⟨right, rightSmall⟩

/-- The highest bit in which two bytes differ. -/
def LeadingBit (u p : UInt8) (bit : ℕ) : Prop :=
  bit < 8 ∧ u.toNat.testBit bit ≠ p.toNat.testBit bit ∧
    ∀ higher < 8, bit < higher → u.toNat.testBit higher = p.toNat.testBit higher

/-- The critical mask names the leading bit that differs. -/
theorem exists_leadingBit {u p : UInt8} (differ : u ≠ p) :
    ∃ bit, LeadingBit u p bit ∧ criticalMask u p = bitMask bit := by
  rcases criticalMask_zero (u ^^^ p) with ⟨zero, -⟩ | ⟨bit, small, mask, set, clear⟩
  · exact absurd (UInt8.xor_eq_zero_iff.mp zero) differ
  · refine ⟨bit, ⟨small, ?_, ?_⟩, (criticalMask_xor u p).trans mask⟩
    · exact fun same => by simp [same] at set
    · intro higher inside above
      have off := clear higher inside above
      simpa using off

/-- `ExternalNode`: a leaf with the block that its key was copied to, if there was memory for it.
Nothing reads `name`. -/
structure ExternalNode (T : Type) where
  name : CString
  key : Option ℕ
  value : T
deriving DecidableEq

/-- The answers of the allocations that one insertion may ask for. -/
structure Allocation where
  external : Bool
  copy : Option ℕ
  internal : Bool
deriving DecidableEq, Repr

/-- A crit-bit tree owns its root. Its keys are in the memory. -/
structure CritBitTree (T : Type) where
  memory : Bytes
  root : Option (BitTrie Position (ExternalNode T))

namespace CritBitTree

variable {T : Type}

/-- The bits of a key at the tested positions. -/
def bits (key : CString) : Position → Bool := fun position => position.bit key

def getBestMatch (tree : CritBitTree T) (key : CString) : Option (ExternalNode T) :=
  tree.root.map fun root => root.walk (bits key)

/-- `std::string_view(match->key)`. -/
def readKey (node : ExternalNode T) : Kernel (CritBitTree T) CString := do
  match node.key with
  | none => throw (.undefined "CritBitTree: null key")
  | some block => return CString.stringAt (← get).memory block

def contains (key : CString) : Kernel (CritBitTree T) Bool := do
  match (← get).getBestMatch key with
  | none => return false
  | some found => return (← readKey found) == key

/-- `Get`: the value of the leaf with the key. -/
protected def get (key : CString) : Kernel (CritBitTree T) (Option T) := do
  match (← MonadState.get).getBestMatch key with
  | none => return none
  | some found => if (← readKey found) ≠ key then return none else return some found.value

def getLongestPrefixMatch (tree : CritBitTree T) (key : CString) : Option T :=
  (tree.getBestMatch key).map ExternalNode.value

/-- The critical bit of a key against the leaf its own bits lead to. -/
def criticalPosition (best key : CString) : Position where
  byte := CString.firstDifference best key
  mask := criticalMask (key.byteAt (CString.firstDifference best key))
    (best.byteAt (CString.firstDifference best key))
  single := criticalMask_single _ _

/-- What the constructor of `ExternalNode` does to the memory. -/
def copyKey (memory : Bytes) (key : CString) : Option ℕ → Bytes
  | none => memory
  | some block => CString.strncpy memory block key.chars (key.strlen + 1)

/-- `Insert`, which may replace the value of a key. The key is copied before the inner node is
allocated. -/
def insert (overwrite : Bool) (allocation : Allocation) (key : CString) (value : T) :
    Kernel (CritBitTree T) Bool := do
  let tree ← MonadState.get
  let copied := copyKey tree.memory key allocation.copy
  let node : ExternalNode T := ⟨key, allocation.copy, value⟩
  match tree.root with
  | none =>
    if !allocation.external then return false
    else
      set (CritBitTree.mk copied (some (.leaf node)))
      return true
  | some root =>
    let best ← readKey (root.walk (bits key))
    let i := CString.firstDifference best key
    if key.byteAt i = 0 ∧ best.byteAt i = 0 then
      if !overwrite then return false
      else
        let replaced := root.modify (bits key) fun leaf => { leaf with value }
        set (CritBitTree.mk tree.memory (some replaced))
        return true
    else
      let position := criticalPosition best key
      let dir := position.bit best
      if !allocation.external then return false
      else if !allocation.internal then
        set (CritBitTree.mk copied (some root))
        return false
      else
        set (CritBitTree.mk copied (some (root.insertAt (bits key) position (!dir) node)))
        return true

def remove (key : CString) : Kernel (CritBitTree T) Bool := do
  let tree ← MonadState.get
  match tree.root with
  | none => return false
  | some root =>
    if (← readKey (root.walk (bits key))) ≠ key then return false
    else
      set (CritBitTree.mk tree.memory (root.remove (bits key)))
      return true

/-- At the critical position a key leaves the leaf it was compared with. -/
theorem bit_criticalPosition_ne {best key : CString} (other : best ≠ key) :
    (criticalPosition best key).bit key ≠ (criticalPosition best key).bit best := by
  have differ : key.byteAt (CString.firstDifference best key) ≠
      best.byteAt (CString.firstDifference best key) :=
    fun same => other (CString.eq_of_byteAt_firstDifference same.symm)
  obtain ⟨bit, ⟨small, split, -⟩, mask⟩ := exists_leadingBit differ
  simp only [Position.bit, criticalPosition, mask, direction_bitMask small]
  exact split

/-- Before the critical position a key has the bits of that leaf. -/
theorem bit_eq_of_lt_criticalPosition {best key : CString} (other : best ≠ key)
    {earlier : Position} (before : earlier < criticalPosition best key) :
    earlier.bit key = earlier.bit best := by
  rcases Position.lt_iff.mp before with byte | ⟨byte, mask⟩
  · simp only [Position.bit, CString.byteAt_eq_of_lt byte]
  · have differ : key.byteAt (CString.firstDifference best key) ≠
        best.byteAt (CString.firstDifference best key) :=
      fun same => other (CString.eq_of_byteAt_firstDifference same.symm)
    obtain ⟨bit, ⟨small, -, above⟩, leading⟩ := exists_leadingBit differ
    change earlier.mask < criticalMask _ _ at mask
    rw [leading] at mask
    rcases earlier.single with full | ⟨higher, inside, single⟩
    · rw [full] at mask
      exact absurd mask (UInt8.not_lt.mpr (Nat.le_of_lt_succ (bitMask bit).toNat_lt))
    · rw [single, bitMask_lt_bitMask inside small] at mask
      simp only [Position.bit, single, direction_bitMask inside, byte]
      exact above higher inside mask

/-- The first bit in which two strings differ, a missing byte being the terminator. -/
def FirstBit (left right : CString) (byte bit : ℕ) : Prop :=
  (∀ earlier < byte, left.byteAt earlier = right.byteAt earlier) ∧
    LeadingBit (left.byteAt byte) (right.byteAt byte) bit

/-- The bit of a string's byte. -/
def bitOf (s : CString) (byte bit : ℕ) : Bool := (s.byteAt byte).toNat.testBit bit

theorem byte_eq_of_bits {u p : UInt8}
    (same : ∀ bit < 8, u.toNat.testBit bit = p.toNat.testBit bit) : u = p := by
  apply UInt8.toNat_inj.mp
  apply Nat.eq_of_testBit_eq
  intro bit
  by_cases small : bit < 8
  · exact same bit small
  · have wide : 2 ^ 8 ≤ 2 ^ bit := Nat.pow_le_pow_right (by decide) (by omega)
    rw [Nat.testBit_lt_two_pow (lt_of_lt_of_le u.toNat_lt wide),
      Nat.testBit_lt_two_pow (lt_of_lt_of_le p.toNat_lt wide)]

/-- The bits a leaf has at the tested positions. -/
def nodeBit (node : ExternalNode T) : Position → Bool := bits node.name

/-- Taking a leaf's side at tested positions is having its bit at the first difference. -/
theorem sides_iff {key : CString} {x y : ExternalNode T} :
    BitTrie.Sides nodeBit (bits key) x y ↔ ∃ byte bit, FirstBit x.name y.name byte bit ∧
      bitOf key byte bit = bitOf x.name byte bit := by
  constructor
  · intro sides
    obtain ⟨position, agree, differ, taken⟩ := sides
    simp only [nodeBit, bits, Position.bit] at agree differ taken
    rcases position.single with full | ⟨bit, small, single⟩
    · rw [full, direction_full, direction_full] at differ
      exact absurd rfl differ
    · simp only [single, direction_bitMask small] at differ taken
      refine ⟨position.byte, bit, ⟨?_, small, differ, ?_⟩, taken⟩
      · intro earlier before
        apply byte_eq_of_bits
        intro tested inside
        have same := agree ⟨earlier, bitMask tested, .inr ⟨tested, inside, rfl⟩⟩
          (Position.lt_iff.mpr (.inl before))
        simpa only [direction_bitMask inside] using same
      · intro higher inside above
        have same := agree ⟨position.byte, bitMask higher, .inr ⟨higher, inside, rfl⟩⟩
          (Position.lt_iff.mpr (.inr ⟨rfl, by
            rw [single]
            exact (bitMask_lt_bitMask inside small).mpr above⟩))
        simpa only [direction_bitMask inside] using same
  · intro first
    obtain ⟨byte, bit, ⟨agree, small, differ, above⟩, taken⟩ := first
    refine ⟨⟨byte, bitMask bit, .inr ⟨bit, small, rfl⟩⟩, ?_, ?_, ?_⟩
    · intro earlier before
      simp only [nodeBit, bits, Position.bit]
      rcases Position.lt_iff.mp before with lower | ⟨same, mask⟩
      · rw [agree earlier.byte lower]
      · rw [same]
        rcases earlier.single with full | ⟨higher, inside, single⟩
        · rw [full, direction_full, direction_full]
        · rw [single, bitMask_lt_bitMask inside small] at mask
          rw [single, direction_bitMask inside, direction_bitMask inside]
          exact above higher inside mask
    · simp only [nodeBit, bits, Position.bit, direction_bitMask small]
      exact differ
    · simp only [nodeBit, bits, Position.bit, direction_bitMask small]
      exact taken

/-- The leaves of the tree. -/
def nodes (tree : CritBitTree T) : List (ExternalNode T) :=
  match tree.root with
  | none => []
  | some root => root.leaves

/-- The tree's nodes are sorted by the positions they test. -/
def Sorted (tree : CritBitTree T) : Prop :=
  ∀ root, tree.root = some root → root.Sorted nodeBit

/-- The memory has the copy of a node's key. -/
def Holds (memory : Bytes) (node : ExternalNode T) : Prop :=
  ∀ block ∈ node.key, node.name.strlen < 2 ^ 64 ∧
    ∀ i ≤ node.name.strlen, memory (block + i) = node.name.byteAt i

/-- No key was overwritten. -/
def Intact (tree : CritBitTree T) : Prop := ∀ node ∈ tree.nodes, Holds tree.memory node

/-- A block for a key that overlaps none in use. -/
def Fresh (tree : CritBitTree T) (key : CString) (block : ℕ) : Prop :=
  block + blockSize (key.strlen + 1) ≤ 2 ^ 64 ∧ ∀ node ∈ tree.nodes, ∀ other ∈ node.key,
    block + blockSize (key.strlen + 1) ≤ other ∨ other + blockSize (node.name.strlen + 1) ≤ block

/-- The block of a key has room for a byte after the terminator. -/
def Fits (key : CString) : Prop := key.strlen + 1 ≠ blockSize (key.strlen + 1)

/-- The leaf that a key leads to has a key of its own. -/
def Readable (tree : CritBitTree T) (key : CString) : Prop :=
  ∀ root, tree.root = some root → (root.walk (bits key)).key ≠ none

/-- Some leaf has the key. -/
def Present (tree : CritBitTree T) (key : CString) : Prop := ∃ node ∈ tree.nodes, node.name = key

variable {tree tree' : CritBitTree T} {key : CString} {value : T} {answer : Bool}
  {allocation : Allocation} {node : ExternalNode T} {memory : Bytes}
  {root : BitTrie Position (ExternalNode T)}

theorem nodes_eq (held : tree.root = some root) : tree.nodes = root.leaves := by
  rw [nodes, held]

/-- A leaf with the given name is the one its name leads to. -/
theorem walk_of_name (sorted : root.Sorted nodeBit) (member : node ∈ root.leaves) :
    root.walk (bits node.name) = node :=
  sorted.walk_self member

/-- A key is present exactly if it leads to itself. -/
theorem walk_name_iff (key : CString) (sorted : root.Sorted nodeBit)
    (held : tree.root = some root) :
    (root.walk (bits key)).name = key ↔ tree.Present key := by
  rw [Present, nodes_eq held]
  constructor
  · exact fun same => ⟨_, BitTrie.walk_mem _ root, same⟩
  · rintro ⟨node, member, rfl⟩
    rw [walk_of_name sorted member]

/-- `GetBestMatch` picks the leaf whose side the key takes against all others. -/
theorem getBestMatch_eq_iff (sorted : tree.Sorted) : tree.getBestMatch key = some node ↔
    node ∈ tree.nodes ∧ ∀ other ∈ tree.nodes, other ≠ node → ∃ byte bit,
      FirstBit node.name other.name byte bit ∧ bitOf key byte bit = bitOf node.name byte bit := by
  cases held : tree.root with
  | none => simp [getBestMatch, nodes, held]
  | some root =>
    simp only [getBestMatch, nodes, held, Option.map_some, Option.some.injEq,
      (sorted root held).walk_eq_iff, sides_iff]

/-- A copy that fits in its block leaves the other keys alone. -/
theorem holds_copyKey (value : T) (intact : tree.Intact) (fits : Fits key)
    (fresh : ∀ block ∈ allocation.copy, tree.Fresh key block) :
    Holds (copyKey tree.memory key allocation.copy) (⟨key, allocation.copy, value⟩ :
      ExternalNode T) ∧
      ∀ node ∈ tree.nodes, Holds (copyKey tree.memory key allocation.copy) node := by
  cases copy : allocation.copy with
  | none => exact ⟨fun block absent => (nomatch absent), intact⟩
  | some block =>
    obtain ⟨inside, apart⟩ := fresh block copy
    have room := lt_of_le_of_ne (le_blockSize (key.strlen + 1)) fits
    rw [copyKey, CString.strncpy_eq (show key.chars.length < key.strlen + 1 from
      Nat.lt_succ_self _)]
    refine ⟨fun other same => ?_, fun node member other same => ?_⟩
    · cases same
      exact ⟨show key.strlen < 2 ^ 64 by omega,
        fun i upto => Bytes.blit_inside (Nat.lt_succ_of_le (Nat.le_succ_of_le upto))⟩
    · obtain ⟨short, stored⟩ := intact node member other same
      refine ⟨short, fun i upto => ?_⟩
      have own := le_blockSize (node.name.strlen + 1)
      rw [← stored i upto]
      refine Bytes.blit_outside ?_
      rcases apart node member other same with before | after
      · exact .inr (by omega)
      · exact .inl (by omega)

/-- Reading an intact key gives the name of its node. -/
theorem run_readKey (holds : Holds tree.memory node) (copied : node.key ≠ none) :
    (readKey node).run tree = .ok node.name tree := by
  obtain ⟨block, held⟩ := Option.ne_none_iff_exists'.mp copied
  obtain ⟨short, stored⟩ := holds block held
  rw [readKey, held, ← CString.stringAt_eq short stored]
  rfl

/-- Looking for a key reads the leaf that it leads to. -/
theorem readable_of_contains (returned : (contains key).run tree = .ok answer tree') :
    tree.Readable key := by
  intro root held null
  unfold contains at returned
  rw [run_get_bind, getBestMatch, held] at returned
  obtain ⟨found, middle, read, -⟩ := run_bind_eq_ok returned
  rw [readKey, null] at read
  cases read

/-- The loop of `Insert` ends at both terminators exactly if the strings are equal. -/
theorem both_terminated_iff {best key : CString} :
    key.byteAt (CString.firstDifference best key) = 0 ∧
      best.byteAt (CString.firstDifference best key) = 0 ↔ best = key := by
  constructor
  · intro ends
    exact CString.eq_of_byteAt_firstDifference (ends.2.trans ends.1.symm)
  · rintro rfl
    rw [CString.firstDifference_self]
    exact ⟨CString.byteAt_strlen best, CString.byteAt_strlen best⟩

/-- Forking at the critical position keeps the nodes sorted. -/
theorem sorted_insertAt (sorted : root.Sorted nodeBit) (fresh : ExternalNode T)
    (other : (root.walk (bits fresh.name)).name ≠ fresh.name) :
    (root.insertAt (bits fresh.name)
      (criticalPosition (root.walk (bits fresh.name)).name fresh.name)
      (!(criticalPosition (root.walk (bits fresh.name)).name fresh.name).bit
        (root.walk (bits fresh.name)).name) fresh).Sorted nodeBit := by
  have split := bit_criticalPosition_ne other
  rw [Bool.not_eq.mpr split.symm]
  exact BitTrie.Sorted.insertAt sorted
    (fun earlier before => bit_eq_of_lt_criticalPosition other before) split

/-- A leaf other than the one its bits lead to has another name. -/
theorem name_eq_iff (sorted : root.Sorted nodeBit) (same : (root.walk (bits key)).name = key)
    (member : node ∈ root.leaves) : node = root.walk (bits key) ↔ node.name = key := by
  constructor
  · rintro rfl
    exact same
  · rintro rfl
    exact (walk_of_name sorted member).symm

/-- The leaf that a key leads to is read. -/
theorem run_readKey_walk (intact : tree.Intact) (readable : tree.Readable key)
    (held : tree.root = some root) :
    (readKey (root.walk (bits key))).run tree = .ok (root.walk (bits key)).name tree :=
  run_readKey (intact _ (nodes_eq held ▸ BitTrie.walk_mem _ root)) (readable root held)

section

variable (sorted : tree.Sorted) (intact : tree.Intact) (readable : tree.Readable key)
include sorted intact readable

theorem run_contains :
    ∃ answer, (contains key).run tree = .ok answer tree ∧ (answer = true ↔ tree.Present key) := by
  unfold contains
  rw [run_get_bind, getBestMatch]
  cases held : tree.root with
  | none => exact ⟨false, rfl, by simp [Present, nodes, held]⟩
  | some root =>
    refine ⟨_, run_bind (run_readKey_walk intact readable held), ?_⟩
    rw [beq_iff_eq, walk_name_iff key (sorted root held) held]

/-- The value that `Get` returns is that of the leaf with the key. -/
theorem run_get : ∃ found, (CritBitTree.get key).run tree = .ok found tree ∧
    ∀ value, found = some value ↔ ∃ node ∈ tree.nodes, node.name = key ∧ node.value = value := by
  unfold CritBitTree.get
  rw [run_get_bind, getBestMatch]
  cases held : tree.root with
  | none => exact ⟨none, rfl, by simp [nodes, held]⟩
  | some root =>
    dsimp only [Option.map_some]
    rw [run_bind (run_readKey_walk intact readable held)]
    by_cases same : (root.walk (bits key)).name = key
    · rw [if_neg (not_not.mpr same)]
      refine ⟨_, rfl, fun value => ?_⟩
      rw [Option.some.injEq, nodes_eq held]
      constructor
      · exact fun here => ⟨_, BitTrie.walk_mem _ root, same, here⟩
      · rintro ⟨node, member, rfl, rfl⟩
        rw [walk_of_name (sorted root held) member]
    · rw [if_pos same]
      refine ⟨none, rfl, fun value => iff_of_false nofun ?_⟩
      rintro ⟨node, member, name, -⟩
      exact same ((walk_name_iff key (sorted root held) held).mpr ⟨node, member, name⟩)

/-- What an insertion leaves behind. -/
structure Inserts (tree tree' : CritBitTree T) (key : CString) (value : T) (copy : Option ℕ)
    (answer : Bool) : Prop where
  sorted : tree'.Sorted
  intact : tree'.Intact
  same : answer = false → tree'.nodes = tree.nodes
  added : answer = true → ∃ block, (block = copy ∨ block ≠ none) ∧ ∀ node,
    node ∈ tree'.nodes ↔ node = ⟨key, block, value⟩ ∨ node ∈ tree.nodes ∧ node.name ≠ key

/-- The value of a key that is present is replaced. -/
theorem Inserts.overwritten (held : tree.root = some root)
    (same : (root.walk (bits key)).name = key) (value : T) {copy : Option ℕ} :
    Inserts tree { tree with root := some (root.modify (bits key) fun leaf => { leaf with value }) }
      key value copy true := by
  obtain ⟨kept, leaves⟩ := (sorted root held).modify (bits key)
    (fun leaf => { leaf with value }) rfl
  have members := nodes_eq held
  have named : ∀ node, node ∈ (root.modify (bits key) fun leaf => { leaf with value }).leaves ↔
      node = ⟨key, (root.walk (bits key)).key, value⟩ ∨ node ∈ tree.nodes ∧ node.name ≠ key := by
    intro node
    rw [leaves, members, same]
    exact or_congr_right (and_congr_right fun member =>
      not_congr (name_eq_iff (sorted root held) same member))
  refine ⟨?_, ?_, nofun, fun _ => ⟨_, .inr (readable root held), named⟩⟩
  · rintro root ⟨⟩
    exact kept
  · intro node member
    rcases (named node).mp member with rfl | old
    · have old := intact _ (members ▸ BitTrie.walk_mem (bits key) root)
      rw [Holds, same] at old
      exact old
    · exact intact node old.1

omit intact readable in
/-- A leaf for a new key is forked off. -/
theorem Inserts.forked {copy : Option ℕ} (held : tree.root = some root)
    (other : (root.walk (bits key)).name ≠ key)
    (fresh : Holds memory (⟨key, copy, value⟩ : ExternalNode T))
    (others : ∀ node ∈ tree.nodes, Holds memory node) :
    Inserts tree ⟨memory, some (root.insertAt (bits key)
      (criticalPosition (root.walk (bits key)).name key)
      (!(criticalPosition (root.walk (bits key)).name key).bit (root.walk (bits key)).name)
      ⟨key, copy, value⟩)⟩ key value copy true := by
  have named : ∀ c side node, node ∈ (root.insertAt (bits key) c side ⟨key, copy, value⟩).leaves ↔
      node = ⟨key, copy, value⟩ ∨ node ∈ tree.nodes ∧ node.name ≠ key := by
    intro c side node
    rw [BitTrie.mem_leaves_insertAt, ← nodes_eq held]
    refine or_congr_right (iff_self_and.mpr fun member name => other ?_)
    exact (walk_name_iff key (sorted root held) held).mpr ⟨node, member, name⟩
  refine ⟨?_, ?_, nofun, fun _ => ⟨_, .inl rfl, named _ _⟩⟩
  · rintro root ⟨⟩
    exact sorted_insertAt (sorted _ held) ⟨key, copy, value⟩ other
  · intro node member
    rcases (named _ _ node).mp member with rfl | old
    · exact fresh
    · exact others node old.1

/-- `Insert` fails for want of memory, and for a key that is present unless it overwrites. -/
theorem run_insert (overwrite : Bool) (allocation : Allocation) (value : T) (fits : Fits key)
    (fresh : ∀ block ∈ allocation.copy, tree.Fresh key block) :
    ∃ answer tree', (insert overwrite allocation key value).run tree = .ok answer tree' ∧
      Inserts tree tree' key value allocation.copy answer ∧
      (answer = true ↔ (tree.Present key → overwrite = true) ∧ (¬ tree.Present key →
        allocation.external = true ∧ (tree.root = none ∨ allocation.internal = true))) := by
  obtain ⟨fresh, others⟩ := holds_copyKey value intact fits fresh
  have unchanged : Inserts tree tree key value allocation.copy false :=
    ⟨sorted, intact, fun _ => rfl, nofun⟩
  unfold insert
  rw [run_get_bind]
  cases held : tree.root with
  | none =>
    have absent : ¬ tree.Present key := by simp [Present, nodes, held]
    cases external : allocation.external with
    | false => exact ⟨false, tree, rfl, unchanged, by simp [absent]⟩
    | true =>
      refine ⟨true, _, rfl, ⟨?_, ?_, nofun, fun _ => ⟨_, .inl rfl, ?_⟩⟩, by simp [absent]⟩
      · rintro root ⟨⟩
        trivial
      · simpa [Intact, nodes, BitTrie.leaves] using fresh
      · simp [nodes, held, BitTrie.leaves]
  | some root =>
    have kept : (CritBitTree.mk (copyKey tree.memory key allocation.copy) (some root)).nodes =
      tree.nodes := (nodes_eq held).symm
    dsimp only
    rw [run_bind (run_readKey_walk intact readable held), if_congr both_terminated_iff rfl rfl]
    have found := walk_name_iff key (sorted root held) held
    by_cases same : (root.walk (bits key)).name = key
    · have present := found.mp same
      rw [if_pos same]
      cases overwrite with
      | false => exact ⟨false, tree, rfl, unchanged, by simp [present]⟩
      | true =>
        exact ⟨true, _, rfl, .overwritten sorted intact readable held same value, by simp [present]⟩
    · have absent := found.not.mp same
      rw [if_neg same]
      cases external : allocation.external with
      | false => exact ⟨false, tree, rfl, unchanged, by simp [absent]⟩
      | true =>
        cases internal : allocation.internal with
        | false =>
          refine ⟨false, _, rfl, ⟨?_, ?_, fun _ => kept, nofun⟩, by simp [absent]⟩
          · rintro root ⟨⟩
            exact sorted root held
          · exact fun node member => others node (kept ▸ member)
        | true =>
          exact ⟨true, _, rfl, .forked sorted held same fresh others, by simp [absent]⟩

/-- `Remove` takes away the leaf with the key, if there is one. -/
theorem run_remove : ∃ answer tree', (remove key).run tree = .ok answer tree' ∧
    (answer = true ↔ tree.Present key) ∧ tree'.Sorted ∧ tree'.Intact ∧
    ∀ node, node ∈ tree'.nodes ↔ node ∈ tree.nodes ∧ node.name ≠ key := by
  have unchanged (absent : ¬ tree.Present key) (node : ExternalNode T) :
      node ∈ tree.nodes ↔ node ∈ tree.nodes ∧ node.name ≠ key :=
    iff_self_and.mpr fun member name => absent ⟨node, member, name⟩
  unfold remove
  rw [run_get_bind]
  cases held : tree.root with
  | none =>
    have absent : ¬ tree.Present key := by simp [Present, nodes, held]
    exact ⟨false, tree, rfl, iff_of_false nofun absent, sorted, intact, unchanged absent⟩
  | some root =>
    dsimp only
    rw [run_bind (run_readKey_walk intact readable held)]
    have found := walk_name_iff key (sorted root held) held
    by_cases same : (root.walk (bits key)).name = key
    · rw [if_neg (not_not.mpr same)]
      have rule := (sorted root held).remove (bits key)
      have named : ∀ node, node ∈ (CritBitTree.mk tree.memory (root.remove (bits key))).nodes ↔
          node ∈ tree.nodes ∧ node.name ≠ key := by
        intro node
        rw [nodes_eq held, and_congr_right fun member =>
          not_congr (name_eq_iff (sorted root held) same member).symm]
        cases removed : root.remove (bits key) with
        | none =>
          rw [removed] at rule
          simp [nodes, rule]
        | some rest =>
          rw [removed] at rule
          exact rule.2 node
      refine ⟨true, _, rfl, iff_of_true rfl (found.mp same), ?_, ?_, named⟩
      · intro rest kept
        rw [show root.remove (bits key) = some rest from kept] at rule
        exact rule.1
      · exact fun node member => intact node ((named node).mp member).1
    · rw [if_pos same]
      exact ⟨false, tree, rfl, iff_of_false nofun (found.not.mp same), sorted, intact,
        unchanged (found.not.mp same)⟩

end

end CritBitTree

end AlkOS.Containers
