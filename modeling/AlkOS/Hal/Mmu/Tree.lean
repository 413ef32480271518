import AlkOS.Hal.Mmu

/-!
# Page tables as a tree

The four levels of page tables form a tree of tables in the sense of `RadixTree`. A
context is lawful if it hands out zeroed frames that are no tables yet and counts the
entries that it is told of.
-/

namespace AlkOS.Hal.Mmu

open RadixTree

/-- Level `4 - depth`: a present entry above level 1 that is not huge names a table. -/
def pageFormat : Format ℕ PageMapEntry (ℕ × PageMapEntry) where
  child depth entry :=
    if depth < 3 ∧ entry.isPresent = true ∧ entry.isHuge (4 - depth) = false
    then some entry.getNextLevelTable else none
  read depth entry := if entry.isPresent then some (depth, entry) else none
  occupied := PageMapEntry.isPresent
  blank := 0
  child_of_absent depth entry absent := if_neg fun child => by
    rw [child.2.1] at absent
    cases absent
  read_of_absent depth entry absent := if_neg fun present => by
    rw [present] at absent
    cases absent
  blank_absent := rfl

/-- The table that a path of indices leads to. -/
abbrev tableAt (frames : Frames) (root : ℕ) (path : List (Fin 512)) : Option ℕ :=
  RadixTree.tableAt pageFormat frames 0 root path

/-- The entry that a path of indices leads to, with its depth. -/
abbrev resolve (frames : Frames) (root : ℕ) (path : List (Fin 512)) :
    Option (ℕ × PageMapEntry) :=
  RadixTree.resolve pageFormat frames 0 root path

/-- The number of present entries of a table. -/
abbrev presentEntries (frames : Frames) (table : ℕ) : ℕ :=
  RadixTree.usage pageFormat frames table

/-- The indices of an address from a level down to level 1. -/
def indicesFrom (vaddr : BitVec 64) : ℕ → List (Fin 512)
  | 0 => []
  | level + 1 => pmeIdx (level + 1) vaddr :: indicesFrom vaddr level

/-- The indices of an address in the tables of all four levels. -/
def indices (vaddr : BitVec 64) : List (Fin 512) := indicesFrom vaddr 4

/-- Both addresses lie in one page: their bits 12 to 47 are the same. -/
def SamePage (v w : BitVec 64) : Prop := v.toNat / 4096 % 2 ^ 36 = w.toNat / 4096 % 2 ^ 36

/-- No entry on the walk of the address is huge. -/
def NoHuge (frames : Frames) (root : ℕ) (vaddr : BitVec 64) : Prop :=
  ∀ front idx rest table, indices vaddr = front ++ idx :: rest →
    tableAt frames root front = some table →
    (frames table idx).isHuge (4 - front.length) = false

/-- The physical address that an entry maps an address to. -/
def physical (vaddr : BitVec 64) : ℕ × PageMapEntry → BitVec 64
  | (1, entry) => entry.getFrameAddress1Gb + (vaddr &&& 0x3FFFFFFF)
  | (2, entry) => entry.getFrameAddress2Mb + (vaddr &&& 0x1FFFFF)
  | (_, entry) => entry.getFrameAddress + (vaddr &&& 0xFFF)

variable {frames : Frames} {root table : ℕ} {vaddr v w : BitVec 64}
  {path : List (Fin 512)} {idx : Fin 512} {entry : PageMapEntry} {depth level : ℕ}

theorem toNat_pmeIdx (level : ℕ) (v : BitVec 64) :
    (pmeIdx level v).val = v.toNat / 2 ^ (12 + (level - 1) * 9) % 512 := by
  simp only [pmeIdx, Fin.val_ofNat, BitVec.toNat_ushiftRight, Nat.shiftRight_eq_div_pow]

/-- Addresses have the same indices when they lie in one page. -/
theorem indices_eq_iff : indices v = indices w ↔ SamePage v w := by
  simp only [indices, indicesFrom, List.cons.injEq, and_true, Fin.ext_iff, toNat_pmeIdx, SamePage]
  omega

theorem length_indicesFrom : (indicesFrom vaddr level).length = level := by
  induction level with
  | zero => rfl
  | succ level ih => rw [indicesFrom, List.length_cons, ih]

/-- How far a walk has come. -/
theorem length_front {k : ℕ} {front : List (Fin 512)}
    (split : indices vaddr = front ++ indicesFrom vaddr k) : front.length + k = 4 := by
  have total := congrArg List.length split
  rw [indices, List.length_append, length_indicesFrom, length_indicesFrom] at total
  exact total.symm

theorem child_def : pageFormat.child depth entry =
    if depth < 3 ∧ entry.isPresent = true ∧ entry.isHuge (4 - depth) = false
    then some entry.getNextLevelTable else none := rfl

/-- A present entry above level 1 that is not huge leads on. -/
theorem child_eq (bound : depth < 3) (present : entry.isPresent = true)
    (small : entry.isHuge (4 - depth) = false) :
    pageFormat.child depth entry = some entry.getNextLevelTable :=
  if_pos ⟨bound, present, small⟩

/-- Level 1 entries name no tables. -/
theorem child_leaf : pageFormat.child 3 entry = none := by
  rw [child_def, if_neg fun child => absurd child.1 (by decide)]

/-- The table behind one more index. -/
theorem tableAt_concat (here : tableAt frames root path = some table) :
    tableAt frames root (path ++ [idx]) = pageFormat.child path.length (frames table idx) := by
  rw [← Nat.zero_add path.length]
  exact RadixTree.tableAt_concat here

/-- A present entry that is not huge leads to the table it names. -/
theorem tableAt_next (here : tableAt frames root path = some table) (bound : path.length < 3)
    (present : (frames table idx).isPresent = true)
    (small : (frames table idx).isHuge (4 - path.length) = false) :
    tableAt frames root (path ++ [idx]) = some (frames table idx).getNextLevelTable :=
  (tableAt_concat here).trans (child_eq bound present small)

/-- One step of a walk above level 1. -/
theorem resolve_cons (bound : depth < 3) :
    RadixTree.resolve pageFormat frames depth table (idx :: path) =
      if (frames table idx).isPresent = false then none
      else if (frames table idx).isHuge (4 - depth) then some (depth, frames table idx)
      else RadixTree.resolve pageFormat frames (depth + 1) (frames table idx).getNextLevelTable
        path := by
  rw [RadixTree.resolve]
  by_cases absent : (frames table idx).isPresent = false
  · rw [if_pos absent, pageFormat.child_of_absent depth _ absent]
    exact pageFormat.read_of_absent depth _ absent
  · rw [if_neg absent]
    have present := eq_true_of_ne_false absent
    by_cases huge : (frames table idx).isHuge (4 - depth)
    · have none_child : pageFormat.child depth (frames table idx) = none := by
        rw [child_def, if_neg]
        intro child
        rw [child.2.2] at huge
        cases huge
      rw [if_pos huge, none_child]
      exact if_pos present
    · rw [if_neg huge, child_eq bound present (eq_false_of_ne_true huge)]

/-- `Translate` reads the value that the indices of the address lead to. -/
theorem translate_eq : translate frames root vaddr =
    match resolve frames root (indices vaddr) with
    | some value => .ok (physical vaddr value)
    | none => .error .notFound := by
  have leaf : ∀ pt, RadixTree.resolve pageFormat frames 3 pt [pmeIdx 1 vaddr] =
      if (frames pt (pmeIdx 1 vaddr)).isPresent = false then none
      else some (3, frames pt (pmeIdx 1 vaddr)) := by
    intro pt
    change (if (frames pt (pmeIdx 1 vaddr)).isPresent then _ else none) = _
    cases (frames pt (pmeIdx 1 vaddr)).isPresent with
    | false => rfl
    | true => rfl
  unfold resolve indices
  simp only [indicesFrom]
  rw [resolve_cons (by decide), resolve_cons (by decide), resolve_cons (by decide), leaf]
  unfold translate
  simp only [Bool.not_eq_true']
  split <;> [skip; split <;> [skip; split <;> [skip; split <;> [skip; split <;> [skip; split]]]]]
  all_goals rfl

end AlkOS.Hal.Mmu
