import Mathlib

/-!
# Binary tries over key bits

A trie whose inner nodes test one bit position of a key and whose leaves hold the keys.
In a sorted trie the leaves below a node agree on every position before the node's own.
A walk always ends in a leaf; the results say in which one.
-/

/-- A trie with leaves in `L` whose nodes test positions in `P`. -/
inductive BitTrie (P L : Type*) where
  | leaf (value : L)
  | node (position : P) (zero one : BitTrie P L)
deriving DecidableEq

namespace BitTrie

variable {P L : Type*}

/-- The leaves, from left to right. -/
def leaves : BitTrie P L → List L
  | leaf value => [value]
  | node _ zero one => zero.leaves ++ one.leaves

/-- The leaf that the given bits lead to. -/
def walk (bits : P → Bool) : BitTrie P L → L
  | leaf value => value
  | node position zero one => if bits position then one.walk bits else zero.walk bits

/-- A node above a trie and a new leaf, which stands on the given side. -/
def fork (position : P) (side : Bool) (fresh : L) (old : BitTrie P L) : BitTrie P L :=
  if side then node position old (leaf fresh) else node position (leaf fresh) old

/-- Follow the bits to the first node that tests a later position, and fork there. -/
def insertAt [LT P] [DecidableLT P] (bits : P → Bool) (position : P) (side : Bool) (fresh : L) :
    BitTrie P L → BitTrie P L
  | leaf value => fork position side fresh (leaf value)
  | node tested zero one =>
    if position < tested then fork position side fresh (node tested zero one)
    else if bits tested then node tested zero (one.insertAt bits position side fresh)
    else node tested (zero.insertAt bits position side fresh) one

/-- Drop the leaf that the bits lead to; its sibling takes the parent's place. -/
def remove (bits : P → Bool) : BitTrie P L → Option (BitTrie P L)
  | leaf _ => none
  | node position zero one =>
    if bits position then
      match one.remove bits with
      | none => some zero
      | some rest => some (node position zero rest)
    else
      match zero.remove bits with
      | none => some one
      | some rest => some (node position rest one)

/-- Change the leaf that the bits lead to. -/
def modify (bits : P → Bool) (change : L → L) : BitTrie P L → BitTrie P L
  | leaf value => leaf (change value)
  | node position zero one =>
    if bits position then node position zero (one.modify bits change)
    else node position (zero.modify bits change) one

/-- The positions that are tested. -/
def positions : BitTrie P L → List P
  | leaf _ => []
  | node position zero one => position :: (zero.positions ++ one.positions)

section Membership

variable {bits : P → Bool} {position : P} {side : Bool} {fresh leaf' : L} {trie old : BitTrie P L}

theorem walk_mem (bits : P → Bool) (trie : BitTrie P L) : trie.walk bits ∈ trie.leaves := by
  induction trie with
  | leaf value => exact List.mem_singleton_self value
  | node position zero one zeroMem oneMem =>
    simp only [walk, leaves, List.mem_append]
    split_ifs
    · exact .inr oneMem
    · exact .inl zeroMem

theorem mem_leaves_fork : leaf' ∈ (fork position side fresh old).leaves ↔
    leaf' = fresh ∨ leaf' ∈ old.leaves := by
  cases side with
  | false => simp [fork, leaves]
  | true => simp [fork, leaves, or_comm]

theorem mem_leaves_insertAt [LT P] [DecidableLT P] :
    leaf' ∈ (trie.insertAt bits position side fresh).leaves ↔
      leaf' = fresh ∨ leaf' ∈ trie.leaves := by
  induction trie with
  | leaf value => exact mem_leaves_fork
  | node tested zero one zeroMem oneMem =>
    rw [insertAt]
    split_ifs
    · exact mem_leaves_fork
    · simp only [leaves, List.mem_append, oneMem]
      exact or_left_comm
    · simp only [leaves, List.mem_append, zeroMem]
      exact or_assoc

end Membership

variable [LinearOrder P] {bit : L → P → Bool}

/-- Below a node the leaves agree on all earlier positions and are split by the tested one. -/
def Sorted (bit : L → P → Bool) : BitTrie P L → Prop
  | leaf _ => True
  | node position zero one =>
    zero.Sorted bit ∧ one.Sorted bit ∧
    (∀ x ∈ zero.leaves, bit x position = false) ∧
    (∀ x ∈ one.leaves, bit x position = true) ∧
    ∀ x ∈ zero.leaves ++ one.leaves, ∀ y ∈ zero.leaves ++ one.leaves,
      ∀ earlier < position, bit x earlier = bit y earlier

/-- The bits have the bit of `x` at the first position where `x` and `y` differ. -/
def Sides (bit : L → P → Bool) (bits : P → Bool) (x y : L) : Prop :=
  ∃ position, (∀ earlier < position, bit x earlier = bit y earlier) ∧
    bit x position ≠ bit y position ∧ bits position = bit x position

variable {bits : P → Bool} {trie : BitTrie P L} {x y fresh : L} {position : P}

theorem Sides.asymm (left : Sides bit bits x y) : ¬ Sides bit bits y x := by
  intro right
  obtain ⟨first, agree, differ, taken⟩ := left
  obtain ⟨second, agree', differ', taken'⟩ := right
  have same : first = second := by
    rcases lt_trichotomy first second with before | same | after
    · exact absurd (agree' first before).symm differ
    · exact same
    · exact absurd (agree second after).symm differ'
  subst same
  exact differ (taken.symm.trans taken')

/-- Leaves below a node may be exchanged for others with the same bits so far. -/
theorem Sorted.exchange {zero one zero' one' : BitTrie P L}
    (sorted : (node position zero one).Sorted bit) (zeroSorted : zero'.Sorted bit)
    (oneSorted : one'.Sorted bit)
    (zeroLike : ∀ x ∈ zero'.leaves, ∃ y ∈ zero.leaves, ∀ p ≤ position, bit x p = bit y p)
    (oneLike : ∀ x ∈ one'.leaves, ∃ y ∈ one.leaves, ∀ p ≤ position, bit x p = bit y p) :
    (node position zero' one').Sorted bit := by
  obtain ⟨-, -, zeroBit, oneBit, common⟩ := sorted
  have like : ∀ x ∈ zero'.leaves ++ one'.leaves, ∃ y ∈ zero.leaves ++ one.leaves,
      ∀ p ≤ position, bit x p = bit y p := by
    intro x member
    rcases List.mem_append.mp member with left | right
    · obtain ⟨y, old, same⟩ := zeroLike x left
      exact ⟨y, List.mem_append_left _ old, same⟩
    · obtain ⟨y, old, same⟩ := oneLike x right
      exact ⟨y, List.mem_append_right _ old, same⟩
  refine ⟨zeroSorted, oneSorted, fun x member => ?_, fun x member => ?_, ?_⟩
  · obtain ⟨y, old, same⟩ := zeroLike x member
    exact (same position le_rfl).trans (zeroBit y old)
  · obtain ⟨y, old, same⟩ := oneLike x member
    exact (same position le_rfl).trans (oneBit y old)
  · intro x left y right earlier before
    obtain ⟨x', xMem, xSame⟩ := like x left
    obtain ⟨y', yMem, ySame⟩ := like y right
    rw [xSame earlier (le_of_lt before), ySame earlier (le_of_lt before)]
    exact common x' xMem y' yMem earlier before

variable (sorted : trie.Sorted bit)
include sorted

/-- A walk takes the side of the leaf it ends in against every other one. -/
theorem Sorted.sides_walk (bits : P → Bool) (member : y ∈ trie.leaves) :
    y = trie.walk bits ∨ Sides bit bits (trie.walk bits) y := by
  induction trie with
  | leaf value => exact .inl (List.mem_singleton.mp member)
  | node position zero one zeroSides oneSides =>
    obtain ⟨zeroSorted, oneSorted, zeroBit, oneBit, agree⟩ := sorted
    simp only [leaves, List.mem_append] at member
    simp only [walk]
    by_cases taken : bits position = true
    · simp only [taken, ↓reduceIte]
      rcases member with left | right
      · refine .inr ⟨position, agree _ (List.mem_append_right _ (walk_mem bits one)) _
          (List.mem_append_left _ left), ?_, ?_⟩
        · rw [oneBit _ (walk_mem bits one), zeroBit _ left]
          exact Bool.noConfusion
        · rw [taken, oneBit _ (walk_mem bits one)]
      · exact oneSides oneSorted right
    · simp only [taken, Bool.false_eq_true, ↓reduceIte]
      rcases member with left | right
      · exact zeroSides zeroSorted left
      · refine .inr ⟨position, agree _ (List.mem_append_left _ (walk_mem bits zero)) _
          (List.mem_append_right _ right), ?_, ?_⟩
        · rw [oneBit _ right, zeroBit _ (walk_mem bits zero)]
          exact Bool.false_ne_true
        · rw [Bool.eq_false_iff.mpr taken, zeroBit _ (walk_mem bits zero)]

/-- A walk ends in the leaf whose side the bits take against all others. -/
theorem Sorted.walk_eq_iff : trie.walk bits = x ↔
    x ∈ trie.leaves ∧ ∀ y ∈ trie.leaves, y ≠ x → Sides bit bits x y := by
  constructor
  · intro ends
    subst ends
    exact ⟨walk_mem bits trie, fun y member other =>
      (sorted.sides_walk bits member).resolve_left other⟩
  · intro chosen
    obtain ⟨member, sides⟩ := chosen
    by_contra other
    exact ((sorted.sides_walk bits member).resolve_left (Ne.symm other)).asymm
      (sides _ (walk_mem bits trie) other)

/-- A leaf's own bits lead to it. -/
theorem Sorted.walk_self (member : x ∈ trie.leaves) : trie.walk (bit x) = x := by
  rcases sorted.sides_walk (bit x) member with same | sides
  · exact same.symm
  · obtain ⟨position, -, differ, taken⟩ := sides
    exact absurd taken.symm differ

/-- Forking a trie by a key that first differs from its leaves at one position. -/
theorem Sorted.fork
    (agree : ∀ x ∈ trie.leaves, ∀ earlier < position, bit fresh earlier = bit x earlier)
    (differ : ∀ x ∈ trie.leaves, bit fresh position ≠ bit x position) :
    (fork position (bit fresh position) fresh trie).Sorted bit := by
  have below : ∀ x ∈ fresh :: trie.leaves, ∀ y ∈ fresh :: trie.leaves,
      ∀ earlier < position, bit x earlier = bit y earlier := by
    intro x left y right earlier before
    have common : ∀ z ∈ fresh :: trie.leaves, bit z earlier = bit fresh earlier :=
      List.forall_mem_cons.mpr ⟨rfl, fun z old => (agree z old earlier before).symm⟩
    rw [common x left, common y right]
  cases taken : bit fresh position with
  | false =>
    refine ⟨trivial, sorted, List.forall_mem_singleton.mpr taken, ?_, ?_⟩
    · intro x member
      exact Bool.not_eq_false _ |>.mp fun off => differ x member (taken.trans off.symm)
    · exact below
  | true =>
    refine ⟨sorted, trivial, ?_, List.forall_mem_singleton.mpr taken, ?_⟩
    · intro x member
      exact Bool.eq_false_iff.mpr fun on => differ x member (taken.trans on.symm)
    · intro x left y right
      refine below x ?_ y ?_
      · simpa [leaves, or_comm] using left
      · simpa [leaves, or_comm] using right

/-- A key is inserted where it first differs from the leaf its bits lead to. -/
theorem Sorted.insertAt
    (agree : ∀ earlier < position, bit fresh earlier = bit (trie.walk (bit fresh)) earlier)
    (differ : bit fresh position ≠ bit (trie.walk (bit fresh)) position) :
    (trie.insertAt (bit fresh) position (bit fresh position) fresh).Sorted bit := by
  induction trie with
  | leaf value =>
    have single : (leaf value : BitTrie P L).Sorted bit := trivial
    refine single.fork ?_ ?_
    · exact List.forall_mem_singleton.mpr agree
    · exact List.forall_mem_singleton.mpr differ
  | node tested zero one zeroInsert oneInsert =>
    have whole := sorted
    obtain ⟨zeroSorted, oneSorted, zeroBit, oneBit, common⟩ := sorted
    have reached := walk_mem (bit fresh) (node tested zero one)
    rw [BitTrie.insertAt]
    by_cases early : position < tested
    · rw [if_pos early]
      refine whole.fork ?_ ?_
      · intro x member earlier before
        rw [agree earlier before]
        exact common _ reached x member earlier (lt_trans before early)
      · intro x member
        rw [← common _ reached x member position early]
        exact differ
    · rw [if_neg early]
      -- A node that tests the very position of the fork would have sent the
      -- walk to a leaf with the fresh key's own bit.
      have later : tested < position := by
        refine lt_of_le_of_ne (not_lt.mp early) fun same => differ ?_
        subst same
        cases taken : bit fresh tested with
        | false =>
          simp only [walk, taken]
          exact (zeroBit _ (walk_mem _ zero)).symm
        | true =>
          simp only [walk, taken]
          exact (oneBit _ (walk_mem _ one)).symm
      have like : ∀ p ≤ tested, bit fresh p = bit ((node tested zero one).walk (bit fresh)) p :=
        fun p before => agree p (lt_of_le_of_lt before later)
      cases taken : bit fresh tested with
      | false =>
        simp only [walk, taken] at agree differ like ⊢
        refine whole.exchange (zeroInsert zeroSorted agree differ) oneSorted ?_
          fun x member => ⟨x, member, fun _ _ => rfl⟩
        intro x member
        rcases mem_leaves_insertAt.mp member with rfl | old
        · exact ⟨_, walk_mem _ zero, like⟩
        · exact ⟨x, old, fun _ _ => rfl⟩
      | true =>
        simp only [walk, taken] at agree differ like ⊢
        refine whole.exchange zeroSorted (oneInsert oneSorted agree differ)
          (fun x member => ⟨x, member, fun _ _ => rfl⟩) ?_
        intro x member
        rcases mem_leaves_insertAt.mp member with rfl | old
        · exact ⟨_, walk_mem _ one, like⟩
        · exact ⟨x, old, fun _ _ => rfl⟩

/-- Positions increase from the root to every leaf. -/
def Increasing : BitTrie P L → Prop
  | leaf _ => True
  | node position zero one =>
    (∀ later ∈ zero.positions ++ one.positions, position < later) ∧
      zero.Increasing ∧ one.Increasing

/-- Every position that is tested tells leaves apart. -/
theorem Sorted.exists_split (tested : position ∈ trie.positions) :
    ∃ x ∈ trie.leaves, ∃ y ∈ trie.leaves, bit x position = false ∧ bit y position = true := by
  induction trie with
  | leaf value => exact nomatch tested
  | node first zero one zeroSplit oneSplit =>
    obtain ⟨zeroSorted, oneSorted, zeroBit, oneBit, -⟩ := sorted
    simp only [positions, List.mem_cons, List.mem_append] at tested
    rcases tested with rfl | left | right
    · exact ⟨_, List.mem_append_left _ (walk_mem (fun _ => true) zero), _,
        List.mem_append_right _ (walk_mem (fun _ => true) one), zeroBit _ (walk_mem _ zero),
        oneBit _ (walk_mem _ one)⟩
    · obtain ⟨x, xMem, y, yMem, split⟩ := zeroSplit zeroSorted left
      exact ⟨x, List.mem_append_left _ xMem, y, List.mem_append_left _ yMem, split⟩
    · obtain ⟨x, xMem, y, yMem, split⟩ := oneSplit oneSorted right
      exact ⟨x, List.mem_append_right _ xMem, y, List.mem_append_right _ yMem, split⟩

/-- Tested positions increase along every path. -/
theorem Sorted.increasing : trie.Increasing := by
  induction trie with
  | leaf value => trivial
  | node first zero one zeroIncreasing oneIncreasing =>
    obtain ⟨zeroSorted, oneSorted, zeroBit, oneBit, agree⟩ := sorted
    refine ⟨fun later tested => ?_, zeroIncreasing zeroSorted, oneIncreasing oneSorted⟩
    by_contra early
    -- Below the node neither an earlier position nor its own one splits anything.
    rcases List.mem_append.mp tested with left | right
    · obtain ⟨x, xMem, y, yMem, off, on⟩ := zeroSorted.exists_split left
      rcases lt_or_eq_of_le (not_lt.mp early) with before | rfl
      · have same := agree x (List.mem_append_left _ xMem) y (List.mem_append_left _ yMem)
          later before
        rw [off, on] at same
        exact Bool.false_ne_true same
      · exact Bool.false_ne_true ((zeroBit y yMem).symm.trans on)
    · obtain ⟨x, xMem, y, yMem, off, on⟩ := oneSorted.exists_split right
      rcases lt_or_eq_of_le (not_lt.mp early) with before | rfl
      · have same := agree x (List.mem_append_right _ xMem) y (List.mem_append_right _ yMem)
          later before
        rw [off, on] at same
        exact Bool.false_ne_true same
      · exact Bool.false_ne_true (off.symm.trans (oneBit x xMem))

/-- Changing a leaf that keeps its bits leaves the trie sorted. -/
theorem Sorted.modify (bits : P → Bool) (change : L → L)
    (kept : bit (change (trie.walk bits)) = bit (trie.walk bits)) :
    (trie.modify bits change).Sorted bit ∧
      ∀ x, x ∈ (trie.modify bits change).leaves ↔
        x = change (trie.walk bits) ∨ x ∈ trie.leaves ∧ x ≠ trie.walk bits := by
  induction trie with
  | leaf value =>
    refine ⟨trivial, fun x => ?_⟩
    simp only [BitTrie.modify, leaves, List.mem_singleton]
    exact ⟨.inl, fun either => either.resolve_right fun both => both.2 both.1⟩
  | node position zero one zeroModify oneModify =>
    have whole := sorted
    obtain ⟨zeroSorted, oneSorted, zeroBit, oneBit, -⟩ := sorted
    have apart : ∀ x ∈ zero.leaves, x ∉ one.leaves := by
      intro x left right
      exact Bool.false_ne_true ((zeroBit x left).symm.trans (oneBit x right))
    simp only [BitTrie.modify, walk] at kept ⊢
    by_cases taken : bits position = true
    · simp only [taken, ↓reduceIte] at kept ⊢
      obtain ⟨changedSorted, changed⟩ := oneModify oneSorted kept
      refine ⟨whole.exchange zeroSorted changedSorted (fun x member => ⟨x, member, fun _ _ => rfl⟩)
        fun x member => ?_, fun x => ?_⟩
      · rcases (changed x).mp member with rfl | ⟨old, _⟩
        · exact ⟨_, walk_mem bits one, fun p _ => congrFun kept p⟩
        · exact ⟨x, old, fun _ _ => rfl⟩
      · simp only [leaves, List.mem_append, changed x]
        have other : x ∈ zero.leaves → x ≠ one.walk bits := fun member same =>
          apart x member (same ▸ walk_mem bits one)
        tauto
    · simp only [taken, Bool.false_eq_true, ↓reduceIte] at kept ⊢
      obtain ⟨changedSorted, changed⟩ := zeroModify zeroSorted kept
      refine ⟨whole.exchange changedSorted oneSorted (fun x member => ?_)
        fun x member => ⟨x, member, fun _ _ => rfl⟩, fun x => ?_⟩
      · rcases (changed x).mp member with rfl | ⟨old, _⟩
        · exact ⟨_, walk_mem bits zero, fun p _ => congrFun kept p⟩
        · exact ⟨x, old, fun _ _ => rfl⟩
      · simp only [leaves, List.mem_append, changed x]
        have other : x ∈ one.leaves → x ≠ zero.walk bits := fun member same =>
          apart _ (walk_mem bits zero) (same ▸ member)
        tauto

/-- Removing leaves the other leaves, and leaves them sorted. -/
theorem Sorted.remove (bits : P → Bool) :
    match trie.remove bits with
    | none => ∀ x, x ∈ trie.leaves ↔ x = trie.walk bits
    | some rest => rest.Sorted bit ∧
        ∀ x, x ∈ rest.leaves ↔ x ∈ trie.leaves ∧ x ≠ trie.walk bits := by
  induction trie with
  | leaf value => exact fun x => List.mem_singleton
  | node position zero one zeroRemove oneRemove =>
    have whole := sorted
    obtain ⟨zeroSorted, oneSorted, zeroBit, oneBit, -⟩ := sorted
    have apart : ∀ x ∈ zero.leaves, x ∉ one.leaves := by
      intro x left right
      exact Bool.false_ne_true ((zeroBit x left).symm.trans (oneBit x right))
    simp only [BitTrie.remove, walk]
    by_cases taken : bits position = true
    · simp only [taken]
      have other : ∀ x ∈ zero.leaves, x ≠ one.walk bits := by
        intro x member same
        exact apart x member (same ▸ walk_mem bits one)
      have cut := oneRemove oneSorted
      cases removed : one.remove bits with
      | none =>
        rw [removed] at cut
        refine ⟨zeroSorted, fun x => ?_⟩
        simp only [leaves, List.mem_append, cut x]
        constructor
        · exact fun member => ⟨.inl member, other x member⟩
        · exact fun kept => kept.1.resolve_right kept.2
      | some rest =>
        rw [removed] at cut
        have kept : ∀ x, x ∈ zero.leaves ++ rest.leaves ↔
            x ∈ zero.leaves ++ one.leaves ∧ x ≠ one.walk bits := by
          intro x
          simp only [List.mem_append, cut.2 x]
          constructor
          · intro member
            rcases member with left | right
            · exact ⟨.inl left, other x left⟩
            · exact ⟨.inr right.1, right.2⟩
          · intro member
            exact member.1.imp_right fun right => ⟨right, member.2⟩
        exact ⟨whole.exchange zeroSorted cut.1 (fun x member => ⟨x, member, fun _ _ => rfl⟩)
          fun x member => ⟨x, ((cut.2 x).mp member).1, fun _ _ => rfl⟩, kept⟩
    · simp only [taken]
      have other : ∀ x ∈ one.leaves, x ≠ zero.walk bits := by
        intro x member same
        exact apart _ (walk_mem bits zero) (same ▸ member)
      have cut := zeroRemove zeroSorted
      cases removed : zero.remove bits with
      | none =>
        rw [removed] at cut
        refine ⟨oneSorted, fun x => ?_⟩
        simp only [leaves, List.mem_append, cut x]
        constructor
        · exact fun member => ⟨.inr member, other x member⟩
        · exact fun kept => kept.1.resolve_left kept.2
      | some rest =>
        rw [removed] at cut
        have kept : ∀ x, x ∈ rest.leaves ++ one.leaves ↔
            x ∈ zero.leaves ++ one.leaves ∧ x ≠ zero.walk bits := by
          intro x
          simp only [List.mem_append, cut.2 x]
          constructor
          · intro member
            rcases member with left | right
            · exact ⟨.inl left.1, left.2⟩
            · exact ⟨.inr right, other x right⟩
          · intro member
            exact member.1.imp_left fun left => ⟨left, member.2⟩
        exact ⟨whole.exchange cut.1 oneSorted
          (fun x member => ⟨x, ((cut.2 x).mp member).1, fun _ _ => rfl⟩)
          fun x member => ⟨x, member, fun _ _ => rfl⟩, kept⟩

end BitTrie
