import AlkOS.Containers.CritBitTree

/-!
# Crit-bit trees as maps

With memory for every node, a crit-bit tree is a finite map from strings to values as
long as no key fills the block it is copied to: the bits of a key lead to the only leaf
that can have it. The copy of a key that fills its block overwrites what is behind it.
-/

namespace AlkOS.Containers.CritBitTree

open Kernel

variable {T : Type}

/-- A change of the tree, with the block that `KMalloc` has for the key. -/
inductive Op (T : Type) where
  | insert (overwrite : Bool) (key : CString) (value : T) (block : ℕ)
  | remove (key : CString)

namespace Op

/-- There is memory for everything. -/
def run : Op T → Kernel (CritBitTree T) Bool
  | insert overwrite key value block =>
    CritBitTree.insert overwrite ⟨true, some block, true⟩ key value
  | remove key => CritBitTree.remove key

/-- One change after the other, with all answers. -/
def runAll : List (Op T) → Kernel (CritBitTree T) (List Bool)
  | [] => pure []
  | op :: ops => do
      let answer ← op.run
      return answer :: (← runAll ops)

/-- The block is not in use. -/
def Granted (tree : CritBitTree T) : Op T → Prop
  | insert _ key _ block => tree.Fresh key block
  | remove _ => True

/-- So are the blocks of all changes, when it is their turn. -/
def AllGranted : CritBitTree T → List (Op T) → Prop
  | _, [] => True
  | tree, op :: ops => op.Granted tree ∧
      match EStateM.run op.run tree with
      | .ok _ tree' => AllGranted tree' ops
      | .error _ _ => True

/-- The key does not fill its block. -/
def Fits : Op T → Prop
  | insert _ key _ _ => CritBitTree.Fits key
  | remove _ => True

instance decidableFits : (op : Op T) → Decidable op.Fits
  | insert _ key _ _ => inferInstanceAs (Decidable (key.strlen + 1 ≠ _))
  | remove _ => .isTrue trivial

/-- The answer for a map. -/
def answer (map : CString → Option T) : Op T → Bool
  | insert overwrite key _ _ => overwrite || (map key).isNone
  | remove key => (map key).isSome

/-- The map afterwards. -/
def update (map : CString → Option T) : Op T → CString → Option T
  | insert overwrite key value _ =>
    if overwrite || (map key).isNone then Function.update map key (some value) else map
  | remove key => Function.update map key none

def answers : (CString → Option T) → List (Op T) → List Bool
  | _, [] => []
  | map, op :: ops => op.answer map :: answers (op.update map) ops

def updates : (CString → Option T) → List (Op T) → CString → Option T
  | map, [] => map
  | map, op :: ops => updates (op.update map) ops

end Op

/-- The tree holds the values of a map, each in a leaf of its own. -/
structure Represents (tree : CritBitTree T) (map : CString → Option T) : Prop where
  sorted : tree.Sorted
  intact : tree.Intact
  copied : ∀ node ∈ tree.nodes, node.key ≠ none
  exact : ∀ key value, map key = some value ↔ ∃ node ∈ tree.nodes, node.name = key ∧
    node.value = value

/-- The keys below a node have the same bits before the bit of the node. -/
def Agreeing : BitTrie Position (ExternalNode T) → Prop
  | .leaf _ => True
  | .node position zero one =>
    (∃ bit < 8, position.mask = bitMask bit ∧
      ∀ x ∈ zero.leaves ++ one.leaves, ∀ y ∈ zero.leaves ++ one.leaves,
        ∀ byte bit', bit' < 8 → byte < position.byte ∨ byte = position.byte ∧ bit < bit' →
          bitOf x.name byte bit' = bitOf y.name byte bit') ∧
      Agreeing zero ∧ Agreeing one

/-- Critical bits grow along every path, and the keys of a subtree agree before its critical bit. -/
def Ordered (tree : CritBitTree T) : Prop :=
  ∀ root, tree.root = some root → root.Increasing ∧ Agreeing root

variable {tree tree' : CritBitTree T} {map : CString → Option T} {key : CString} {value : T}
  {root : BitTrie Position (ExternalNode T)} {node : ExternalNode T}

/-- The leaves below a node of a sorted trie agree. -/
theorem agreeing_of_sorted (sorted : root.Sorted nodeBit) : Agreeing root := by
  induction root with
  | leaf value => trivial
  | node position zero one zeroAgree oneAgree =>
    obtain ⟨zeroSorted, oneSorted, zeroBit, _, agree⟩ := sorted
    refine ⟨?_, zeroAgree zeroSorted, oneAgree oneSorted⟩
    rcases position.single with full | ⟨bit, small, single⟩
    -- A full mask sends everything to the second child, which leaves the first one empty.
    · have off := zeroBit _ (BitTrie.walk_mem (fun _ => true) zero)
      simp only [nodeBit, bits, Position.bit, full, direction_full] at off
      cases off
    · refine ⟨bit, small, single, fun x xMem y yMem byte bit' small' before => ?_⟩
      have same := agree x xMem y yMem ⟨byte, bitMask bit', .inr ⟨bit', small', rfl⟩⟩ <| by
        rw [Position.lt_iff]
        refine before.imp_right fun both => ⟨both.1, ?_⟩
        rw [single]
        exact (bitMask_lt_bitMask small' small).mpr both.2
      simpa only [nodeBit, bits, Position.bit, direction_bitMask small', bitOf] using same

theorem Represents.ordered (represents : Represents tree map) : tree.Ordered := fun root held =>
  ⟨(represents.sorted root held).increasing, agreeing_of_sorted (represents.sorted root held)⟩

/-- A key is in the map exactly if a leaf has it. -/
theorem Represents.isSome_iff (represents : Represents tree map) (key : CString) :
    (map key).isSome = true ↔ tree.Present key := by
  rw [Option.isSome_iff_exists, Present]
  simp only [represents.exact]
  constructor
  · rintro ⟨value, node, member, name, -⟩
    exact ⟨node, member, name⟩
  · rintro ⟨node, member, name⟩
    exact ⟨node.value, node, member, name, rfl⟩

/-- All leaves can be read. -/
theorem Represents.readable (represents : Represents tree map) (key : CString) :
    tree.Readable key := fun root held =>
  represents.copied _ (nodes_eq held ▸ BitTrie.walk_mem _ root)

theorem represents_empty (memory : Bytes) :
    Represents (⟨memory, none⟩ : CritBitTree T) fun _ => none where
  sorted := fun _ held => nomatch held
  intact := fun _ member => nomatch member
  copied := fun _ member => nomatch member
  exact := fun _ _ => ⟨fun absent => (nomatch absent), fun ⟨_, member, _⟩ => (nomatch member)⟩

section

variable (represents : Represents tree map)
include represents

/-- `Contains` and `Get` answer for the map. -/
theorem answers_of_represents (key : CString) :
    (contains key).run tree = .ok (map key).isSome tree ∧
      (CritBitTree.get key).run tree = .ok (map key) tree := by
  have readable := represents.readable key
  obtain ⟨answer, asked, answered⟩ := run_contains represents.sorted represents.intact readable
  obtain ⟨found, looked, value⟩ := run_get represents.sorted represents.intact readable
  have same : found = map key := Option.ext fun x => by rw [value, represents.exact]
  rw [asked, looked, same, Bool.eq_iff_iff.mpr (answered.trans (represents.isSome_iff key).symm)]
  exact ⟨rfl, rfl⟩

/-- `Insert` answers and changes the tree as the map does. -/
theorem run_insert_of_represents (overwrite : Bool) (key : CString) (value : T) {block : ℕ}
    (fits : CritBitTree.Fits key) (fresh : tree.Fresh key block) :
    ∃ tree', (insert overwrite ⟨true, some block, true⟩ key value).run tree =
        .ok (overwrite || (map key).isNone) tree' ∧
      Represents tree' (if overwrite || (map key).isNone then Function.update map key (some value)
        else map) := by
  have readable := represents.readable key
  obtain ⟨answer, tree', ran, inserts, answered⟩ := run_insert represents.sorted
    represents.intact readable overwrite ⟨true, some block, true⟩ value fits
    (by rintro _ ⟨⟩; exact fresh)
  have same : answer = (overwrite || (map key).isNone) := by
    rw [Bool.eq_iff_iff, answered, ← represents.isSome_iff]
    cases map key <;> simp
  rw [← same]
  refine ⟨tree', ran, ?_⟩
  cases answer with
  | false =>
    have nodes := inserts.same rfl
    refine ⟨inserts.sorted, inserts.intact, ?_, ?_⟩
    · rw [nodes]
      exact represents.copied
    · rw [nodes]
      exact represents.exact
  | true =>
    obtain ⟨own, held, nodes⟩ := inserts.added rfl
    refine ⟨inserts.sorted, inserts.intact, fun node member => ?_, fun other found => ?_⟩
    · rcases (nodes node).mp member with rfl | ⟨old, -⟩
      · rcases held with rfl | held
        · exact nofun
        · exact held
      · exact represents.copied node old
    · simp only [nodes, ↓reduceIte]
      by_cases same : other = key
      · subst same
        rw [Function.update_self, Option.some.injEq]
        constructor
        · rintro rfl
          exact ⟨_, .inl rfl, rfl, rfl⟩
        · rintro ⟨node, rfl | ⟨-, differ⟩, name, rfl⟩
          · rfl
          · exact absurd name differ
      · rw [Function.update_of_ne same, represents.exact]
        constructor
        · rintro ⟨node, member, rfl, value⟩
          exact ⟨node, .inr ⟨member, same⟩, rfl, value⟩
        · rintro ⟨node, rfl | ⟨member, -⟩, name, value⟩
          · exact absurd name.symm same
          · exact ⟨node, member, name, value⟩

/-- `Remove` answers and changes the tree as the map does. -/
theorem run_remove_of_represents (key : CString) :
    ∃ tree', (remove key).run tree = .ok (map key).isSome tree' ∧
      Represents tree' (Function.update map key none) := by
  obtain ⟨answer, tree', ran, answered, sorted, intact, nodes⟩ :=
    run_remove represents.sorted represents.intact (represents.readable key)
  refine ⟨tree', ?_, sorted, intact, fun node member => ?_, fun other found => ?_⟩
  · rw [ran, Bool.eq_iff_iff.mpr (answered.trans (represents.isSome_iff key).symm)]
  · exact represents.copied node ((nodes node).mp member).1
  · simp only [nodes]
    by_cases same : other = key
    · subst same
      rw [Function.update_self]
      exact iff_of_false nofun fun ⟨_, both, name, _⟩ => both.2 name
    · rw [Function.update_of_ne same, represents.exact]
      constructor
      · rintro ⟨node, member, rfl, value⟩
        exact ⟨node, ⟨member, same⟩, rfl, value⟩
      · exact fun ⟨node, member, rest⟩ => ⟨node, member.1, rest⟩

theorem Op.run_of_represents (op : Op T) (granted : op.Granted tree) (fits : op.Fits) :
    ∃ tree', EStateM.run op.run tree = .ok (op.answer map) tree' ∧
      Represents tree' (op.update map) := by
  cases op with
  | insert overwrite key value block =>
    exact run_insert_of_represents represents overwrite key value fits granted
  | remove key => exact run_remove_of_represents represents key

/-- Any calls answer like the map. -/
theorem Op.runAll_of_represents (ops : List (Op T)) (granted : Op.AllGranted tree ops)
    (fits : ∀ op ∈ ops, op.Fits) :
    ∃ tree', (Op.runAll ops).run tree = .ok (Op.answers map ops) tree' ∧
      Represents tree' (Op.updates map ops) := by
  induction ops generalizing tree map with
  | nil => exact ⟨tree, rfl, represents⟩
  | cons op ops ih =>
    rw [List.forall_mem_cons] at fits
    obtain ⟨middle, first, represents⟩ := op.run_of_represents represents granted.1 fits.1
    have later := granted.2
    rw [first] at later
    obtain ⟨tree', others, represents⟩ := ih represents later fits.2
    refine ⟨tree', ?_, represents⟩
    rw [Op.runAll, run_bind first, run_bind others]
    rfl

end

/-- While no key fills its block, the tree answers like a map and keeps its order and its keys. -/
theorem runs_like_map (memory : Bytes) (ops : List (Op T))
    (granted : Op.AllGranted ⟨memory, none⟩ ops) (fits : ∀ op ∈ ops, op.Fits) :
    ∃ tree, (Op.runAll ops).run ⟨memory, none⟩ = .ok (Op.answers (fun _ => none) ops) tree ∧
      tree.Ordered ∧ tree.Intact ∧ ∀ key,
        (contains key).run tree =
          .ok (Op.updates (fun _ => none) ops key).isSome tree ∧
        (CritBitTree.get key).run tree = .ok (Op.updates (fun _ => none) ops key) tree := by
  obtain ⟨tree, ran, represents⟩ :=
    Op.runAll_of_represents (represents_empty memory) ops granted fits
  exact ⟨tree, ran, represents.ordered, represents.intact, answers_of_represents represents⟩

/-- A string of the same characters. -/
def repeated (count : ℕ) (c : UInt8) (free : 0 ∉ List.replicate count c) : CString :=
  ⟨List.replicate count c, free⟩

/-- The keys `a`, which is removed in the end, and `b`, whose value is replaced once. -/
def shortKeys : List (Op ℕ) :=
  let a := repeated 1 97 (by decide)
  let b := repeated 1 98 (by decide)
  [.insert false a 1 8, .insert false b 2 16, .insert false b 3 24, .insert true b 4 24, .remove a]

/-- The calls on the short keys. -/
theorem runs_like_map_shortKeys : ∃ tree, (Op.runAll shortKeys).run ⟨fun _ => 0, none⟩ =
      .ok [true, true, false, true, true] tree ∧
    (contains (repeated 1 97 (by decide))).run tree = .ok false tree ∧
    (CritBitTree.get (repeated 1 98 (by decide))).run tree = .ok (some 4) tree := by
  have granted : Op.AllGranted ⟨fun _ => 0, none⟩ shortKeys := by
    refine ⟨?_, ?_, ?_, ?_, trivial, trivial⟩ <;> unfold Op.Granted Fresh <;> decide +kernel
  obtain ⟨tree, ran, -, -, answers⟩ := runs_like_map _ shortKeys granted (by decide +kernel)
  exact ⟨tree, ran, (answers _).1, (answers _).2⟩

/-- Keys that fill blocks of eight bytes. The last one gets the block of the first. -/
def neighbours : List (Op Unit) :=
  let a := repeated 7 97 (by decide)
  [.insert false a () 8, .insert false (repeated 7 98 (by decide)) () 16, .remove a,
    .insert false (repeated 7 99 (by decide)) () 8]

/-- `strncpy` clears the first character of the second key. -/
theorem neighbour_overwritten : Op.AllGranted ⟨fun _ => 0, none⟩ neighbours ∧
    Op.updates (fun _ => none) neighbours (repeated 7 98 (by decide)) = some () ∧
    outcome ((Op.runAll neighbours >>= fun _ => contains (repeated 7 98 (by decide))).run
      ⟨fun _ => 0, none⟩) = some false := by
  refine ⟨⟨?_, ?_, trivial, ?_, trivial⟩, by decide, by decide +kernel⟩ <;>
    unfold Op.Granted Fresh <;> decide +kernel

end AlkOS.Containers.CritBitTree
