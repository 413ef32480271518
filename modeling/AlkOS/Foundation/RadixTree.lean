import Mathlib

/-!
# Trees of tables in a store

A store maps frames to tables of words. At each depth a word may name a child table, may
hold a value, or may be absent. The rules say what one write does to all walks: hanging
an empty table under an absent word, cutting off an empty table, and writing a word that
names no table.
-/

namespace RadixTree

/-- How the words of a table are read at each depth. -/
structure Format (Frame Word Value : Type*) where
  child : ℕ → Word → Option Frame
  read : ℕ → Word → Option Value
  occupied : Word → Bool
  blank : Word
  child_of_absent : ∀ depth word, occupied word = false → child depth word = none
  read_of_absent : ∀ depth word, occupied word = false → read depth word = none
  blank_absent : occupied blank = false

variable {Frame Index Word Value : Type*} (F : Format Frame Word Value)

/-- The table that a path leads to. -/
def tableAt (store : Frame → Index → Word) : ℕ → Frame → List Index → Option Frame
  | _, table, [] => some table
  | depth, table, index :: path =>
    (F.child depth (store table index)).bind fun next => tableAt store (depth + 1) next path

/-- The value of the first word on a path which names no table. -/
def resolve (store : Frame → Index → Word) : ℕ → Frame → List Index → Option Value
  | _, _, [] => none
  | depth, table, index :: path =>
    match F.child depth (store table index) with
    | some next => resolve store (depth + 1) next path
    | none => F.read depth (store table index)

/-- The number of occupied words of a table. -/
def usage [Fintype Index] (store : Frame → Index → Word) (table : Frame) : ℕ :=
  (Finset.univ.filter fun index => F.occupied (store table index) = true).card

variable {F} {store store' : Frame → Index → Word} {depth : ℕ} {root table fresh : Frame}
  {path suffix walked : List Index} {index : Index}

/-- A path is followed in two parts. -/
theorem tableAt_append : tableAt F store depth root (path ++ suffix) =
    (tableAt F store depth root path).bind fun next =>
      tableAt F store (depth + path.length) next suffix := by
  induction path generalizing depth root with
  | nil => rfl
  | cons index path ih =>
    simp only [List.cons_append, tableAt, List.length_cons]
    cases F.child depth (store root index) with
    | none => rfl
    | some next =>
      have shift : depth + (path.length + 1) = depth + 1 + path.length := by omega
      rw [Option.bind_some, Option.bind_some, ih, shift]

/-- The last step of a path. -/
theorem tableAt_concat (reached : tableAt F store depth root path = some table) :
    tableAt F store depth root (path ++ [index]) =
      F.child (depth + path.length) (store table index) := by
  rw [tableAt_append, reached, Option.bind_some, tableAt]
  cases F.child (depth + path.length) (store table index) with
  | none => rfl
  | some next => rfl

/-- A walk goes on from the table it reached. -/
theorem resolve_append (reached : tableAt F store depth root path = some table) :
    resolve F store depth root (path ++ suffix) =
      resolve F store (depth + path.length) table suffix := by
  induction path generalizing depth root with
  | nil =>
    cases reached
    rfl
  | cons index path ih =>
    simp only [tableAt] at reached
    simp only [List.cons_append, resolve, List.length_cons]
    cases child : F.child depth (store root index) with
    | none =>
      rw [child] at reached
      cases reached
    | some next =>
      rw [child] at reached
      have shift : depth + (path.length + 1) = depth + 1 + path.length := by omega
      rw [shift]
      exact ih reached

/-- The prefixes of a path that leads to a table lead to tables. -/
theorem tableAt_prefix (reached : tableAt F store depth root (path ++ suffix) = some table) :
    ∃ next, tableAt F store depth root path = some next ∧
      tableAt F store (depth + path.length) next suffix = some table := by
  rw [tableAt_append] at reached
  exact Option.bind_eq_some_iff.mp reached

/-- A walk depends only on the words it passes. -/
theorem walk_congr (same : ∀ front index rest table, walked = front ++ index :: rest →
      tableAt F store depth root front = some table → store' table index = store table index) :
    tableAt F store' depth root walked = tableAt F store depth root walked ∧
      resolve F store' depth root walked = resolve F store depth root walked := by
  induction walked generalizing depth root with
  | nil => exact ⟨rfl, rfl⟩
  | cons index walked ih =>
    have first : store' root index = store root index := same [] index walked root rfl rfl
    simp only [tableAt, resolve, first]
    cases child : F.child depth (store root index) with
    | none => exact ⟨rfl, rfl⟩
    | some next =>
      apply ih
      intro front later rest table split reached
      apply same (index :: front) later rest table (by rw [split, List.cons_append])
      rw [tableAt, child]
      exact reached

/-- All tables are kept, apart from the word at the end of `path` and `index` and the table it
named. -/
def AgreeOff (F : Format Frame Word Value) (store store' : Frame → Index → Word) (root : Frame)
    (path : List Index) (index : Index) : Prop :=
  ∀ other table entry, tableAt F store 0 root other = some table →
    other ≠ path ++ [index] → (other, entry) ≠ (path, index) →
    store' table entry = store table entry

namespace AgreeOff

variable (agree : AgreeOff F store store' root path index)
include agree

/-- Walks that do not pass the written word are kept. -/
theorem elsewhere (apart : ¬ path ++ [index] <+: walked) :
    tableAt F store' 0 root walked = tableAt F store 0 root walked ∧
      resolve F store' 0 root walked = resolve F store 0 root walked := by
  apply walk_congr
  intro front entry rest table split reached
  apply agree front table entry reached
  · intro same
    exact apart ⟨entry :: rest, by rw [split, same]⟩
  · intro same
    cases same
    exact apart ⟨rest, by rw [split, List.append_assoc, List.singleton_append]⟩

theorem reached (here : tableAt F store 0 root path = some table) :
    tableAt F store' 0 root path = some table := by
  rw [(agree.elsewhere fun passes => ?_).1]
  · exact here
  · have shorter := passes.length_le
    rw [List.length_append, List.length_singleton] at shorter
    omega

/-- Walks past the written word continue as it says. -/
theorem beyond (here : tableAt F store 0 root path = some table) (suffix : List Index) :
    tableAt F store' 0 root (path ++ index :: suffix) =
        tableAt F store' path.length table (index :: suffix) ∧
      resolve F store' 0 root (path ++ index :: suffix) =
        resolve F store' path.length table (index :: suffix) := by
  have kept := agree.reached here
  refine ⟨?_, ?_⟩
  · rw [tableAt_append, kept, Option.bind_some, Nat.zero_add]
  · rw [resolve_append kept, Nat.zero_add]

end AgreeOff

/-- The state of all walks after a write that changed one child link. -/
structure Relinked (F : Format Frame Word Value) (store store' : Frame → Index → Word)
    (root : Frame) (path : List Index) (index : Index) (link : Option Frame) : Prop where
  here : tableAt F store' 0 root (path ++ [index]) = link
  elsewhere : ∀ walked, walked ≠ path ++ [index] →
    tableAt F store' 0 root walked = tableAt F store 0 root walked
  resolve : ∀ walked, resolve F store' 0 root walked = RadixTree.resolve F store 0 root walked

/-- A walk into an empty table ends there without a value. -/
theorem walk_empty (empty : ∀ entry, F.occupied (store table entry) = false) (depth : ℕ)
    (entry : Index) (suffix : List Index) :
    tableAt F store depth table (entry :: suffix) = none ∧
      resolve F store depth table (entry :: suffix) = none := by
  have none_child := F.child_of_absent depth _ (empty entry)
  refine ⟨?_, ?_⟩
  · rw [tableAt, none_child, Option.bind_none]
  · rw [resolve, none_child]
    exact F.read_of_absent depth _ (empty entry)

/-- A walk over a word that names an empty table ends in that table. -/
theorem walk_to_empty (link : F.child depth (store table index) = some fresh)
    (empty : ∀ entry, F.occupied (store fresh entry) = false) :
    tableAt F store depth table [index] = some fresh ∧
      (∀ entry suffix, tableAt F store depth table (index :: entry :: suffix) = none) ∧
      ∀ suffix, resolve F store depth table (index :: suffix) = none := by
  refine ⟨?_, ?_, ?_⟩
  · rw [tableAt, link]
    rfl
  · intro entry suffix
    rw [tableAt, link]
    exact (walk_empty empty (depth + 1) entry suffix).1
  · intro suffix
    rw [resolve, link]
    cases suffix with
    | nil => rfl
    | cons entry suffix => exact (walk_empty empty (depth + 1) entry suffix).2

/-- A walk over an absent word ends there without a value. -/
theorem walk_absent (absent : F.occupied (store table index) = false) (suffix : List Index) :
    tableAt F store depth table (index :: suffix) = none ∧
      resolve F store depth table (index :: suffix) = none := by
  have none_child := F.child_of_absent depth _ absent
  refine ⟨?_, ?_⟩
  · rw [tableAt, none_child, Option.bind_none]
  · rw [resolve, none_child]
    exact F.read_of_absent depth _ absent

section

variable (agree : AgreeOff F store store' root path index)
  (here : tableAt F store 0 root path = some table)
include agree here

/-- One of two stores has an absent word where the other names an empty table. -/
theorem AgreeOff.relinked {link : Option Frame}
    (linked : tableAt F store' path.length table [index] = link)
    (tables : ∀ entry suffix, tableAt F store' path.length table (index :: entry :: suffix) =
      tableAt F store path.length table (index :: entry :: suffix))
    (values : ∀ suffix, resolve F store' path.length table (index :: suffix) =
      resolve F store path.length table (index :: suffix)) :
    Relinked F store store' root path index link := by
  have before : ∀ suffix, tableAt F store 0 root (path ++ index :: suffix) =
      tableAt F store path.length table (index :: suffix) := by
    intro suffix
    rw [tableAt_append, here, Option.bind_some, Nat.zero_add]
  refine ⟨?_, ?_, ?_⟩
  · rw [(agree.beyond here []).1]
    exact linked
  · intro walked apart
    by_cases passes : path ++ [index] <+: walked
    · obtain ⟨suffix, rfl⟩ := passes
      rw [List.append_assoc, List.singleton_append] at apart ⊢
      cases suffix with
      | nil => exact absurd rfl apart
      | cons entry suffix => rw [(agree.beyond here _).1, before, tables]
    · exact (agree.elsewhere passes).1
  · intro walked
    by_cases passes : path ++ [index] <+: walked
    · obtain ⟨suffix, rfl⟩ := passes
      rw [List.append_assoc, List.singleton_append, (agree.beyond here _).2, values,
        resolve_append here, Nat.zero_add]
    · exact (agree.elsewhere passes).2

/-- Hanging an empty table under an absent word. -/
theorem AgreeOff.attach (absent : F.occupied (store table index) = false)
    (link : F.child path.length (store' table index) = some fresh)
    (empty : ∀ entry, F.occupied (store' fresh entry) = false) :
    Relinked F store store' root path index (some fresh) := by
  obtain ⟨linked, tables, values⟩ := walk_to_empty link empty
  apply agree.relinked here linked
  · intro entry suffix
    rw [tables, (walk_absent absent _).1]
  · intro suffix
    rw [values, (walk_absent absent _).2]

/-- Cutting off an empty table. -/
theorem AgreeOff.detach (link : F.child path.length (store table index) = some fresh)
    (empty : ∀ entry, F.occupied (store fresh entry) = false)
    (cut : F.occupied (store' table index) = false) :
    Relinked F store store' root path index none := by
  obtain ⟨_, tables, values⟩ := walk_to_empty link empty
  apply agree.relinked here (walk_absent cut []).1
  · intro entry suffix
    rw [tables, (walk_absent cut _).1]
  · intro suffix
    rw [values, (walk_absent cut _).2]

/-- Writing a word that names no table, before and after. -/
theorem AgreeOff.write (before : F.child path.length (store table index) = none)
    (after : F.child path.length (store' table index) = none) :
    (∀ walked, tableAt F store' 0 root walked = tableAt F store 0 root walked) ∧
      (∀ suffix, resolve F store' 0 root (path ++ index :: suffix) =
        F.read path.length (store' table index)) ∧
      ∀ walked, ¬ path ++ [index] <+: walked →
        resolve F store' 0 root walked = resolve F store 0 root walked := by
  refine ⟨?_, ?_, fun walked apart => (agree.elsewhere apart).2⟩
  · intro walked
    by_cases passes : path ++ [index] <+: walked
    · obtain ⟨suffix, rfl⟩ := passes
      rw [List.append_assoc, List.singleton_append, (agree.beyond here _).1, tableAt_append, here,
        tableAt, after, Option.bind_none, Option.bind_some, Nat.zero_add, tableAt, before,
        Option.bind_none]
    · exact (agree.elsewhere passes).1
  · intro suffix
    rw [(agree.beyond here suffix).2, resolve, after]

end

section Usage

variable [Fintype Index]

/-- One written word changes the usage of its table by at most one. -/
theorem usage_write [DecidableEq Index]
    (same : ∀ entry, entry ≠ index → store' table entry = store table entry) :
    usage F store' table + (F.occupied (store table index)).toNat =
      usage F store table + (F.occupied (store' table index)).toNat := by
  have split : ∀ s : Frame → Index → Word, usage F s table =
      (F.occupied (s table index)).toNat +
        ∑ entry ∈ Finset.univ.erase index, (F.occupied (s table entry)).toNat := by
    intro s
    rw [Finset.add_sum_erase _ (fun entry => (F.occupied (s table entry)).toNat)
      (Finset.mem_univ index), usage, Finset.card_filter]
    apply Finset.sum_congr rfl
    intro entry _
    cases F.occupied (s table entry) with
    | false => rfl
    | true => rfl
  have rest : ∑ entry ∈ Finset.univ.erase index, (F.occupied (store' table entry)).toNat =
      ∑ entry ∈ Finset.univ.erase index, (F.occupied (store table entry)).toNat := by
    apply Finset.sum_congr rfl
    intro entry member
    rw [same entry (Finset.ne_of_mem_erase member)]
  rw [split store', split store]
  omega

theorem usage_congr (same : ∀ entry, store' table entry = store table entry) :
    usage F store' table = usage F store table := by
  unfold usage
  simp only [same]

theorem usage_eq_zero_iff :
    usage F store table = 0 ↔ ∀ entry, F.occupied (store table entry) = false := by
  unfold usage
  rw [Finset.card_eq_zero, Finset.filter_eq_empty_iff]
  constructor
  · intro none entry
    exact eq_false_of_ne_true (none (Finset.mem_univ entry))
  · intro none entry _
    rw [none entry]
    exact Bool.false_ne_true

theorem usage_le : usage F store table ≤ Fintype.card Index := Finset.card_filter_le _ _

/-- A table with an absent word is not full. -/
theorem usage_lt (absent : F.occupied (store table index) = false) :
    usage F store table < Fintype.card Index := by
  apply Finset.card_lt_univ_of_notMem (x := index)
  rw [Finset.mem_filter, absent]
  exact fun both => Bool.false_ne_true both.2

theorem usage_pos (present : F.occupied (store table index) = true) : 0 < usage F store table :=
  Finset.card_pos.mpr ⟨index, Finset.mem_filter.mpr ⟨Finset.mem_univ index, present⟩⟩

end Usage

/-- No table is reached twice, and all of them are allocated. -/
structure Tree (F : Format Frame Word Value) (store : Frame → Index → Word) (tables : Set Frame)
    (root : Frame) : Prop where
  injective : ∀ path other table, tableAt F store 0 root path = some table →
    tableAt F store 0 root other = some table → path = other
  allocated : ∀ path table, tableAt F store 0 root path = some table → table ∈ tables

namespace Tree

variable {tables tables' : Set Frame} {old : Frame}

variable (tree : Tree F store tables root)
include tree

/-- A write to one word of one table, and to frames that are no tables. -/
theorem agreeOff (here : tableAt F store 0 root path = some table)
    (same : ∀ other ∈ tables, tableAt F store 0 root (path ++ [index]) ≠ some other →
      ∀ entry, (other, entry) ≠ (table, index) → store' other entry = store other entry) :
    AgreeOff F store store' root path index := by
  intro other frame entry reached notBelow apart
  apply same frame (tree.allocated other frame reached)
  · intro below
    exact notBelow (tree.injective other _ frame reached below)
  · intro both
    cases both
    exact apart (by rw [tree.injective other path table reached here])

theorem congr (same : ∀ walked, tableAt F store' 0 root walked = tableAt F store 0 root walked) :
    Tree F store' tables root := by
  refine ⟨?_, ?_⟩
  · intro path other table
    rw [same, same]
    exact tree.injective path other table
  · intro path table
    rw [same]
    exact tree.allocated path table

theorem mono (more : tables ⊆ tables') : Tree F store tables' root :=
  ⟨tree.injective, fun path table reached => more (tree.allocated path table reached)⟩

/-- A fresh table joins the tree. -/
theorem attach (outside : fresh ∉ tables)
    (linked : Relinked F store store' root path index (some fresh)) :
    Tree F store' (insert fresh tables) root := by
  have below : ∀ walked table, walked ≠ path ++ [index] →
      tableAt F store' 0 root walked = some table → table ≠ fresh := by
    intro walked table apart reached same
    rw [linked.elsewhere walked apart] at reached
    exact outside (same ▸ tree.allocated walked table reached)
  refine ⟨?_, ?_⟩
  · intro left right table reachedLeft reachedRight
    by_cases leftHere : left = path ++ [index]
    · by_cases rightHere : right = path ++ [index]
      · rw [leftHere, rightHere]
      · rw [leftHere, linked.here] at reachedLeft
        exact absurd (Option.some.inj reachedLeft).symm (below right table rightHere reachedRight)
    · by_cases rightHere : right = path ++ [index]
      · rw [rightHere, linked.here] at reachedRight
        exact absurd (Option.some.inj reachedRight).symm (below left table leftHere reachedLeft)
      · rw [linked.elsewhere left leftHere] at reachedLeft
        rw [linked.elsewhere right rightHere] at reachedRight
        exact tree.injective left right table reachedLeft reachedRight
  · intro walked table reached
    by_cases here : walked = path ++ [index]
    · rw [here, linked.here] at reached
      exact Or.inl (Option.some.inj reached).symm
    · rw [linked.elsewhere walked here] at reached
      exact Or.inr (tree.allocated walked table reached)

/-- A table leaves the tree. -/
theorem detach (before : tableAt F store 0 root (path ++ [index]) = some old)
    (linked : Relinked F store store' root path index none) :
    Tree F store' (tables \ {old}) root := by
  have kept : ∀ walked table, tableAt F store' 0 root walked = some table →
      walked ≠ path ++ [index] ∧ tableAt F store 0 root walked = some table := by
    intro walked table reached
    by_cases here : walked = path ++ [index]
    · rw [here, linked.here] at reached
      cases reached
    · rw [linked.elsewhere walked here] at reached
      exact ⟨here, reached⟩
  refine ⟨?_, ?_⟩
  · intro left right table reachedLeft reachedRight
    exact tree.injective left right table (kept left table reachedLeft).2
      (kept right table reachedRight).2
  · intro walked table reached
    obtain ⟨apart, reached⟩ := kept walked table reached
    refine ⟨tree.allocated walked table reached, ?_⟩
    intro same
    cases same
    exact apart (tree.injective walked _ old reached before)

end Tree

end RadixTree
