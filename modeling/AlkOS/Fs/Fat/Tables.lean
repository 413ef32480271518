import AlkOS.Fs.Fat.FileData

/-!
# Directory tables

A directory table is the list of slots in the blocks of a directory. Its listing
maps slot numbers to the entries in use, up to the first end mark. Scanning reads
the listing, and updating or creating an entry changes it in one slot.
-/

namespace AlkOS.Fat.Volume

open Kernel Vfs Function

variable {v : Volume} {disk disk' : Bytes} {b cluster other p i j offset : ℕ}
  {l : List ℕ} {items : List DirectoryEntry} {entry : DirectoryEntry} {name : ShortName} {β : Type}
  {fuel : ℕ} {entries blocks : Set ℕ} {first second : List DirectoryEntry} {old : DirectoryEntry}

/-- The entry in a slot, if the slot is neither free nor after an end mark. -/
def live (items : List DirectoryEntry) (j : ℕ) : Option DirectoryEntry :=
  ((items.takeWhile fun entry => !entry.isFurtherEntriesFree)[j]?).filter fun entry =>
    !entry.isFree

theorem live_cons_zero (going : entry.isFurtherEntriesFree = false) :
    live (entry :: items) 0 = if entry.isFree then none else some entry := by
  unfold live
  rw [List.takeWhile_cons_of_pos (by rw [going]; rfl)]
  cases free : entry.isFree with
  | true => simp [free]
  | false => simp [free]

theorem live_cons_succ (going : entry.isFurtherEntriesFree = false) :
    live (entry :: items) (j + 1) = live items j := by
  unfold live
  rw [List.takeWhile_cons_of_pos (by rw [going]; rfl), List.getElem?_cons_succ]

theorem live_cons_of_end (ends : entry.isFurtherEntriesFree = true) :
    live (entry :: items) j = none := by
  unfold live
  rw [List.takeWhile_cons_of_neg (by rw [ends]; decide)]
  rfl

/-- An entry in use is in its slot, and no end mark comes before it. -/
theorem live_eq_some (found : live items j = some entry) :
    items[j]? = some entry ∧ entry.isFree = false ∧ entry.isFurtherEntriesFree = false ∧
      ∀ other ∈ items.take j, other.isFurtherEntriesFree = false := by
  obtain ⟨here, taken⟩ := Option.filter_eq_some_iff.mp found
  obtain ⟨rest, split⟩ :=
    List.takeWhile_prefix (fun entry => !entry.isFurtherEntriesFree) (l := items)
  have going : ∀ other ∈ items.takeWhile fun entry => !entry.isFurtherEntriesFree,
      other.isFurtherEntriesFree = false := fun other member => by
    simpa using List.mem_takeWhile_imp member
  have inside := (List.getElem?_eq_some_iff.mp here).1
  refine ⟨?_, by simpa using taken, going entry (List.mem_of_getElem? here), fun other member => ?_⟩
  · rw [← split, List.getElem?_append_left inside]
    exact here
  · rw [← split, List.take_append_of_le_length inside.le] at member
    exact going other (List.mem_of_mem_take member)

theorem lt_length_of_live (found : live items j = some entry) : j < items.length :=
  (List.getElem?_eq_some_iff.mp (live_eq_some found).1).1

/-- Whether an entry is found under a name. -/
def Named (entry : DirectoryEntry) (name : ShortName) : Prop :=
  entry.isLongNameSubComponent = false ∧ entry.filename = name

instance (entry : DirectoryEntry) (name : ShortName) : Decidable (Named entry name) :=
  inferInstanceAs (Decidable (_ ∧ _))

/-- The first entry of a listing under a name. -/
def Finds (listing : ℕ → Option DirectoryEntry) (name : ShortName) (j : ℕ)
    (entry : DirectoryEntry) : Prop :=
  listing j = some entry ∧ Named entry name ∧
    ∀ i < j, ∀ other, listing i = some other → ¬ Named other name

/-- A name is found once. -/
theorem Finds.unique {listing : ℕ → Option DirectoryEntry} {other : DirectoryEntry}
    (first : Finds listing name i entry) (second : Finds listing name j other) :
    i = j ∧ entry = other := by
  have same : i = j := by
    rcases Nat.lt_trichotomy i j with less | equal | greater
    · exact absurd first.2.1 (second.2.2 i less entry first.1)
    · exact equal
    · exact absurd second.2.1 (first.2.2 j greater other second.1)
  subst same
  exact ⟨rfl, Option.some.inj (first.1.symm.trans second.1)⟩

theorem matchName_of_named (free : entry.isFree = false) (named : Named entry name) :
    matchName name entry offset = some (entry, offset) := by
  unfold matchName
  rw [named.1, free, named.2]
  simp

theorem matchName_of_not_named (named : ¬ Named entry name) :
    matchName name entry offset = none := by
  refine if_neg fun holds => named ?_
  simp only [Bool.and_eq_true, Bool.not_eq_true', beq_iff_eq] at holds
  exact ⟨holds.1.1, holds.2⟩

theorem scanSlots_append (visit : DirectoryEntry → ℕ → Option β)
    (first second : List DirectoryEntry) (offset : ℕ) :
    scanSlots visit (first ++ second) offset =
      match scanSlots visit first offset with
      | some result => some result
      | none => scanSlots visit second (offset + first.length * kEntrySize) := by
  induction first generalizing offset with
  | nil => rw [List.length_nil]; rfl
  | cons entry first ih =>
    have shift : offset + (first.length + 1) * kEntrySize =
        offset + kEntrySize + first.length * kEntrySize := by ring
    rw [List.cons_append, scanSlots, scanSlots, List.length_cons, shift]
    split_ifs with free ends
    · exact ih _
    · rfl
    · cases visit entry offset with
      | none => exact ih _
      | some value => rfl

/-- What a scan by name finds in a list of slots. -/
def findSlot (name : ShortName) (items : List DirectoryEntry) (offset : ℕ) :
    Option (DirectoryEntry × ℕ) :=
  (scanSlots (matchName name) items offset).getD none

theorem findSlot_cons (going : entry.isFurtherEntriesFree = false) :
    findSlot name (entry :: items) offset =
      if entry.isFree = false ∧ Named entry name then some (entry, offset)
      else findSlot name items (offset + kEntrySize) := by
  unfold findSlot
  rw [scanSlots]
  cases free : entry.isFree with
  | true => simp
  | false =>
    rw [going]
    by_cases named : Named entry name
    · simp [named, matchName_of_named free named]
    · simp [named, matchName_of_not_named named]

theorem isFree_of_end (ends : entry.isFurtherEntriesFree = true) : entry.isFree = false := by
  unfold DirectoryEntry.isFree at *
  rw [beq_iff_eq.mp ends]
  decide

theorem findSlot_cons_of_end (ends : entry.isFurtherEntriesFree = true) :
    findSlot name (entry :: items) offset = none := by
  unfold findSlot
  rw [scanSlots, isFree_of_end ends, ends]
  rfl

/-- A scan by name finds the first entry of the listing under that name. -/
theorem findSlot_eq_some :
    findSlot name items offset = some (entry, other) ↔
      ∃ j, other = offset + j * kEntrySize ∧ Finds (live items) name j entry := by
  induction items generalizing offset with
  | nil =>
    constructor
    · intro found
      exact nomatch found
    · intro ⟨j, _, found⟩
      exact nomatch found.1
  | cons first items ih =>
    cases ends : first.isFurtherEntriesFree with
    | true =>
      rw [findSlot_cons_of_end ends]
      constructor
      · intro found
        exact nomatch found
      · intro ⟨j, _, found⟩
        have contra := found.1
        rw [live_cons_of_end ends] at contra
        exact nomatch contra
    | false =>
      rw [findSlot_cons ends]
      by_cases here : first.isFree = false ∧ Named first name
      · have seen : live (first :: items) 0 = some first := by
          rw [live_cons_zero ends, here.1]
          rfl
        have finds : Finds (live (first :: items)) name 0 first :=
          ⟨seen, here.2, fun i below => absurd below (Nat.not_lt_zero i)⟩
        rw [if_pos here, Option.some.injEq, Prod.mk.injEq]
        constructor
        · intro ⟨same, start⟩
          exact ⟨0, by rw [← start, Nat.zero_mul, Nat.add_zero], same ▸ finds⟩
        · intro ⟨j, place, found⟩
          obtain ⟨zero, same⟩ := finds.unique found
          refine ⟨same, ?_⟩
          rw [place, ← zero, Nat.zero_mul, Nat.add_zero]
      · rw [if_neg here, ih]
        have skip : ∀ seen, live (first :: items) 0 = some seen → ¬ Named seen name := by
          intro seen found named
          rw [live_cons_zero ends] at found
          split_ifs at found with free
          rw [Option.some.injEq] at found
          exact here ⟨Bool.eq_false_iff.mpr free, found ▸ named⟩
        constructor
        · intro ⟨j, place, found, named, before⟩
          refine ⟨j + 1, by rw [place]; ring, ?_, named, ?_⟩
          · rw [live_cons_succ ends]
            exact found
          · intro i below seen
            cases i with
            | zero => exact skip seen
            | succ i =>
              rw [live_cons_succ ends]
              exact before i (Nat.lt_of_succ_lt_succ below) seen
        · intro ⟨j, place, found, named, before⟩
          cases j with
          | zero => exact absurd named (skip entry found)
          | succ j =>
            rw [live_cons_succ ends] at found
            refine ⟨j, by rw [place]; ring, found, named, ?_⟩
            intro i below seen
            have later := before (i + 1) (Nat.succ_lt_succ below) seen
            rwa [live_cons_succ ends] at later

/-- The clusters met when the table is followed from a start. -/
def walk (v : Volume) (disk : Bytes) : ℕ → ℕ → List ℕ
  | 0, _ => []
  | fuel + 1, cluster =>
    if cluster < v.kEOC then cluster :: walk v disk fuel (v.entry disk cluster) else []

/-- The clusters of the chain from a start. -/
def clusters (v : Volume) (disk : Bytes) (start : ℕ) : List ℕ := v.walk disk v.clusterCount start

section

variable (chain : v.Chain disk cluster l)
include chain

/-- A walk visits the clusters of a chain. -/
theorem Chain.walk_eq (enough : l.length ≤ fuel) :
    v.walk disk fuel cluster = l := by
  induction fuel generalizing cluster l with
  | zero =>
    obtain ⟨rest, rfl⟩ := chain.exists_cons
    exact absurd enough (Nat.not_succ_le_zero _)
  | succ fuel ih =>
    rw [walk, if_pos (chain.lt_kEOC chain.start_mem)]
    obtain ⟨rest, rfl⟩ := chain.exists_cons
    rcases chain.next with ⟨rfl, ends⟩ | ⟨-, tail⟩
    · cases fuel with
      | zero => rfl
      | succ fuel => rw [walk, if_neg (not_lt.mpr ends)]
    · rw [ih tail (Nat.le_of_succ_le_succ enough)]

theorem Chain.clusters_eq : v.clusters disk cluster = l :=
  chain.walk_eq chain.length_le

/-- The blocks of a directory. -/
def extent (v : Volume) (disk : Bytes) (p : ℕ) : List ℕ :=
  if v.IsRootBlock p then [p] else v.clusters disk p

/-- A directory table starts at the given block. -/
def IsTable (v : Volume) (disk : Bytes) (p : ℕ) : Prop :=
  v.IsRootBlock p ∨ v.Chain disk p (v.clusters disk p)

/-- The slots of a block. -/
def blockSlots (v : Volume) (disk : Bytes) (b : ℕ) : List DirectoryEntry :=
  slotsOf (v.block disk b) (v.blockSize b)

/-- The slots of a directory. -/
def slots (v : Volume) (disk : Bytes) (p : ℕ) : List DirectoryEntry :=
  (v.extent disk p).flatMap (v.blockSlots disk)

/-- The entries in use in a directory. -/
def listing (v : Volume) (disk : Bytes) (p : ℕ) : ℕ → Option DirectoryEntry :=
  live (v.slots disk p)

omit chain in
theorem extent_of_root (root : v.IsRootBlock p) : v.extent disk p = [p] := if_pos root

omit chain in
theorem blockSlots_of_inRange (known : v.InRange b) :
    v.blockSlots disk b = slotsOf (v.data disk b) v.clusterSize := by
  rw [blockSlots, block_of_inRange known, blockSize_of_inRange known]

omit chain in
theorem slots_of_root (root : v.IsRootBlock p) :
    v.slots disk p = slotsOf (v.root disk) v.rootSize := by
  rw [slots, extent_of_root root, List.flatMap_singleton, blockSlots, block, blockSize,
    if_pos root, if_pos root]

theorem Chain.not_isRootBlock : ¬ v.IsRootBlock cluster :=
  (chain.inRange cluster chain.start_mem).not_isRootBlock

theorem Chain.extent_eq : v.extent disk cluster = l := by
  rw [extent, if_neg chain.not_isRootBlock, chain.clusters_eq]

theorem Chain.isTable : v.IsTable disk cluster := by
  refine .inr ?_
  rw [chain.clusters_eq]
  exact chain

end

section

variable (table : v.IsTable disk p)
include table

theorem IsTable.chain (inner : ¬ v.IsRootBlock p) :
    v.Chain disk p (v.extent disk p) := by
  rw [extent, if_neg inner]
  exact table.resolve_left inner

theorem IsTable.start_mem : p ∈ v.extent disk p := by
  by_cases root : v.IsRootBlock p
  · rw [extent_of_root root]
    exact List.mem_singleton_self p
  · exact (table.chain root).start_mem

theorem IsTable.isBlock (member : b ∈ v.extent disk p) :
    v.IsBlock b := by
  by_cases root : v.IsRootBlock p
  · rw [extent_of_root root, List.mem_singleton] at member
    exact .inl (member ▸ root)
  · exact .inr ((table.chain root).inRange b member)

theorem IsTable.nodup : (v.extent disk p).Nodup := by
  by_cases root : v.IsRootBlock p
  · rw [extent_of_root root]
    exact List.nodup_singleton p
  · exact (table.chain root).nodup

end

/-- The slots of a block depend on its bytes only. -/
theorem blockSlots_congr (same : ∀ i < v.blockSize b, v.block disk' b i = v.block disk b i) :
    v.blockSlots disk' b = v.blockSlots disk b := by
  refine List.map_congr_left fun i member => ?_
  have inside : (i + 1) * kEntrySize ≤ v.blockSize b := by
    refine le_trans (Nat.mul_le_mul_right _ (List.mem_range.mp member)) ?_
    exact Nat.div_mul_le_self _ _
  refine DirectoryEntry.decode_congr fun k below => ?_
  have wide : kEntrySize = 32 := rfl
  exact same _ (by rw [Nat.add_mul] at inside; omega)

section

variable (frame : v.Frame disk disk' entries blocks) (table : v.IsTable disk p)
  (apart : ∀ b ∈ v.extent disk p, b ∉ entries)
include frame table apart

/-- A directory whose blocks are left alone keeps its extent and its slots. -/
theorem Frame.extent_eq :
    v.extent disk' p = v.extent disk p ∧ v.IsTable disk' p := by
  by_cases root : v.IsRootBlock p
  · rw [extent_of_root root, extent_of_root root]
    exact ⟨rfl, .inl root⟩
  · have chain := (table.chain root).frame frame apart
    exact ⟨chain.extent_eq, chain.isTable⟩

theorem Frame.slots_eq (apartBlocks : ∀ b ∈ v.extent disk p, b ∉ blocks) :
    v.slots disk' p = v.slots disk p := by
  unfold slots
  rw [(frame.extent_eq table apart).1]
  refine List.flatMap_congr fun b member => ?_
  exact blockSlots_congr (frame.block b (table.isBlock member) (apartBlocks b member))

end

theorem isRootBlock_iff : (v.variant.kHasFixedRootDir && p == 0) = true ↔ v.IsRootBlock p := by
  rw [Bool.and_eq_true, beq_iff_eq]
  rfl

/-- Scanning a chain is scanning its slots. -/
theorem Sound.scanChain_eq (sound : v.Sound) (visit : DirectoryEntry → ℕ → Option β)
    (chain : v.Chain disk cluster l) (enough : l.length < fuel) :
    v.scanChain disk visit fuel cluster offset =
      .ok ((scanSlots visit (l.flatMap (v.blockSlots disk)) offset).getD none) := by
  induction fuel generalizing cluster l offset with
  | zero => exact absurd enough (Nat.not_lt_zero _)
  | succ fuel ih =>
    have known := chain.inRange cluster chain.start_mem
    obtain ⟨rest, rfl⟩ := chain.exists_cons
    rw [List.length_cons] at enough
    rw [scanChain, if_pos (chain.lt_kEOC chain.start_mem), sound.readCluster_eq,
      List.flatMap_cons, scanSlots_append, blockSlots_of_inRange known]
    change (match scanSlots visit (slotsOf (v.data disk cluster) v.clusterSize) offset with
      | some result => pure result
      | none => _) = _
    cases scanSlots visit (slotsOf (v.data disk cluster) v.clusterSize) offset with
    | some result => rfl
    | none =>
      rw [getFATEntry_of_passes (chain.passes sound)]
      change v.scanChain disk visit fuel (v.entry disk cluster) _ = _
      rcases chain.next with ⟨rfl, ends⟩ | ⟨-, tail⟩
      · cases fuel with
        | zero => exact absurd enough (Nat.lt_irrefl 1)
        | succ fuel =>
          rw [scanChain, if_neg (not_lt.mpr ends)]
          rfl
      · exact ih tail (Nat.lt_of_succ_lt_succ enough)

/-- Scanning a directory is scanning its slots. -/
theorem Sound.scanDirectoryTableWithOffset_eq (sound : v.Sound) (readable : v.RootReadable)
    (visit : DirectoryEntry → ℕ → Option β) (table : v.IsTable disk (v.firstCluster entry)) :
    v.scanDirectoryTableWithOffset disk entry visit =
      .ok ((scanSlots visit (v.slots disk (v.firstCluster entry)) 0).getD none) := by
  unfold scanDirectoryTableWithOffset
  by_cases root : v.IsRootBlock (v.firstCluster entry)
  · rw [if_pos (isRootBlock_iff.mpr root), readRoot_eq (readable root.1), slots_of_root root]
    rfl
  · have short := (table.chain root).length_le_kEOC
    rw [if_neg (fun holds => root (isRootBlock_iff.mp holds)),
      sound.scanChain_eq visit (table.chain root) (by omega)]
    rfl

theorem collectSlots_append (first second : List DirectoryEntry) :
    collectSlots (first ++ second) =
      if (collectSlots first).2 then collectSlots first
      else ((collectSlots first).1 ++ (collectSlots second).1, (collectSlots second).2) := by
  induction first with
  | nil => rfl
  | cons entry first ih =>
    rw [List.cons_append, collectSlots, collectSlots]
    cases entry.isFree with
    | true => exact ih
    | false =>
      cases entry.isFurtherEntriesFree with
      | true => rfl
      | false =>
        simp only [ih]
        split_ifs <;> rfl

/-- A callback gets the entries in use, in order. -/
theorem collectSlots_eq (items : List DirectoryEntry) :
    (collectSlots items).1 = (List.range items.length).filterMap (live items) := by
  induction items with
  | nil => rfl
  | cons entry items ih =>
    rw [collectSlots, List.length_cons, List.range_succ_eq_map, List.filterMap_cons]
    cases ends : entry.isFurtherEntriesFree with
    | true =>
      have nothing : ∀ j, live (entry :: items) j = none := fun _ => live_cons_of_end ends
      rw [isFree_of_end ends]
      simp [nothing]
    | false =>
      have later : (live (entry :: items) ∘ Nat.succ) = live items := by
        funext j
        exact live_cons_succ ends
      rw [live_cons_zero ends, List.filterMap_map, later, ← ih]
      cases entry.isFree with
      | true => rfl
      | false => rfl

/-- A scan along a chain collects the slots of all its clusters. -/
theorem Sound.collectChain_eq (sound : v.Sound) (chain : v.Chain disk cluster l)
    (enough : l.length < fuel) :
    v.collectChain disk fuel cluster =
      .ok (collectSlots (l.flatMap (v.blockSlots disk))).1 := by
  induction fuel generalizing cluster l with
  | zero => exact absurd enough (Nat.not_lt_zero _)
  | succ fuel ih =>
    have known := chain.inRange cluster chain.start_mem
    obtain ⟨rest, rfl⟩ := chain.exists_cons
    rw [List.length_cons] at enough
    rw [collectChain, if_pos (chain.lt_kEOC chain.start_mem), sound.readCluster_eq,
      List.flatMap_cons, collectSlots_append, blockSlots_of_inRange known]
    change (if (collectSlots (slotsOf (v.data disk cluster) v.clusterSize)).2 then _ else _) = _
    split_ifs with ends
    · rfl
    · rw [getFATEntry_of_passes (chain.passes sound)]
      change (do return _ ++ (← v.collectChain disk fuel (v.entry disk cluster))) = _
      rcases chain.next with ⟨rfl, last⟩ | ⟨-, tail⟩
      · cases fuel with
        | zero => exact absurd enough (Nat.lt_irrefl 1)
        | succ fuel =>
          rw [collectChain, if_neg (not_lt.mpr last)]
          rfl
      · rw [ih tail (Nat.lt_of_succ_lt_succ enough)]
        rfl

/-- `ScanDirectoryTable_` returns the entries in use. -/
theorem Sound.scanDirectoryTable_eq (sound : v.Sound) (readable : v.RootReadable)
    (table : v.IsTable disk (v.firstCluster entry)) :
    v.scanDirectoryTable disk entry =
      .ok ((List.range (v.slots disk (v.firstCluster entry)).length).filterMap
        (v.listing disk (v.firstCluster entry))) := by
  unfold scanDirectoryTable listing
  rw [← collectSlots_eq]
  by_cases root : v.IsRootBlock (v.firstCluster entry)
  · rw [if_pos (isRootBlock_iff.mpr root), readRoot_eq (readable root.1), slots_of_root root]
    rfl
  · have short := (table.chain root).length_le_kEOC
    rw [if_neg (fun holds => root (isRootBlock_iff.mp holds)),
      sound.collectChain_eq (table.chain root) (by omega)]
    rfl

/-- The end mark of the first part hides the second. -/
theorem live_append (going : ∀ entry ∈ first, entry.isFurtherEntriesFree = false) (j : ℕ) :
    live (first ++ second) j =
      if j < first.length then live first j else live second (j - first.length) := by
  induction first generalizing j with
  | nil => rfl
  | cons entry first ih =>
    have here := going entry List.mem_cons_self
    have later := fun other member => going other (List.mem_cons_of_mem entry member)
    cases j with
    | zero =>
      rw [List.cons_append, live_cons_zero here, live_cons_zero here, List.length_cons,
        if_pos (Nat.succ_pos _)]
    | succ j =>
      rw [List.cons_append, live_cons_succ here, live_cons_succ here, ih later,
        List.length_cons]
      simp only [Nat.succ_lt_succ_iff, Nat.succ_sub_succ]

section

variable (going : ∀ entry ∈ first, entry.isFurtherEntriesFree = false)
  (after : entry.isFurtherEntriesFree = false)
include going after

theorem live_replace_of_later {rest : List DirectoryEntry}
    (later : ∀ k, live second k = live rest (k + 1)) :
    live (first ++ entry :: second) = update (live (first ++ rest))
      first.length (if entry.isFree then none else some entry) := by
  funext j
  rw [live_append going]
  rcases Nat.lt_trichotomy j first.length with less | rfl | greater
  · rw [if_pos less, update_of_ne (Nat.ne_of_lt less), live_append going, if_pos less]
  · rw [if_neg (Nat.lt_irrefl _), Nat.sub_self, live_cons_zero after, update_self]
  · rw [if_neg (by omega), update_of_ne (by omega), live_append going, if_neg (by omega)]
    obtain ⟨k, same⟩ : ∃ k, j - first.length = k + 1 := ⟨j - first.length - 1, by omega⟩
    rw [same, live_cons_succ after, later]

/-- Writing an entry into a slot before the end mark. -/
theorem live_replace (before : old.isFurtherEntriesFree = false) :
    live (first ++ entry :: second) = update (live (first ++ old :: second))
      first.length (if entry.isFree then none else some entry) :=
  live_replace_of_later going after fun _ => (live_cons_succ before).symm

/-- Writing into the slot of the end mark, before another end mark or at the end. -/
theorem live_replace_end {second' : List DirectoryEntry}
    (ends : old.isFurtherEntriesFree = true)
    (closed : ∀ next ∈ second'.head?, next.isFurtherEntriesFree = true) :
    live (first ++ entry :: second') = update (live (first ++ old :: second))
      first.length (if entry.isFree then none else some entry) := by
  refine live_replace_of_later going after fun k => ?_
  rw [live_cons_of_end ends]
  cases second' with
  | nil => rfl
  | cons next second' => exact live_cons_of_end (closed next rfl)

end

/-- Replacing an entry in use. -/
theorem live_set (found : live items j = some old) (after : entry.isFurtherEntriesFree = false) :
    live (items.set j entry) = update (live items) j
      (if entry.isFree then none else some entry) := by
  obtain ⟨here, -, before, going⟩ := live_eq_some found
  obtain ⟨inside, same⟩ := List.getElem?_eq_some_iff.mp here
  have split : items = items.take j ++ old :: items.drop (j + 1) := by
    rw [← same, ← List.drop_eq_getElem_cons inside, List.take_append_drop]
  have length : (items.take j).length = j := by
    rw [List.length_take, Nat.min_eq_left (Nat.le_of_lt inside)]
  have replaced : live (items.take j ++ entry :: items.drop (j + 1)) =
      update (live (items.take j ++ old :: items.drop (j + 1))) (items.take j).length
        (if entry.isFree then none else some entry) :=
    live_replace going after before
  rw [← split, length] at replaced
  rw [List.set_eq_take_append_cons_drop, if_pos inside]
  exact replaced

end AlkOS.Fat.Volume
