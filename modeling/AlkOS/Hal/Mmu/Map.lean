import AlkOS.Hal.Mmu.Tree

/-!
# Walking down and mapping

`Map` allocates the missing tables on the walk of an address and then writes the
leaf. Each new table hangs empty under an entry that was not present, so no
address is translated differently until the leaf is written.
-/

namespace AlkOS.Hal.Mmu

open Kernel RadixTree

variable {κ : Type}

/-- What `Map` and `Unmap` rely on: the frames in use as tables, and the entries reported. -/
structure Lawful (ctx : MmuContext κ) where
  valid : κ → Prop
  tables : κ → Set ℕ
  usage : κ → ℕ → ℕ
  allocateTable : ∀ level m, valid m.ctx → ∃ result m',
    (ctx.allocateTable level).run m = .ok result m' ∧ valid m'.ctx ∧
    (∀ table ∈ tables m.ctx, usage m'.ctx table = usage m.ctx table ∧
      m'.frames table = m.frames table) ∧
    ((∃ error, result = .error error ∧ tables m'.ctx = tables m.ctx) ∨
      ∃ next, result = .ok next ∧ next ∉ tables m.ctx ∧ next < 2 ^ 40 ∧
        tables m'.ctx = insert next (tables m.ctx) ∧ usage m'.ctx next = 0 ∧
        m'.frames next = fun _ => 0)
  increaseUsage : ∀ table m, valid m.ctx → table ∈ tables m.ctx → usage m.ctx table < 512 →
    ∃ after, (ctx.increaseUsage table).run m = .ok () ⟨m.frames, after⟩ ∧ valid after ∧
      tables after = tables m.ctx ∧
      usage after = Function.update (usage m.ctx) table (usage m.ctx table + 1)
  decreaseUsage : ∀ table m, valid m.ctx → table ∈ tables m.ctx → 0 < usage m.ctx table →
    ∃ after, (ctx.decreaseUsage table).run m =
        .ok (decide (usage m.ctx table - 1 = 0)) ⟨m.frames, after⟩ ∧ valid after ∧
      tables after = tables m.ctx ∧
      usage after = Function.update (usage m.ctx) table (usage m.ctx table - 1)
  freeTable : ∀ table level m, valid m.ctx → table ∈ tables m.ctx → ∃ m',
    (ctx.freeTable table level).run m = .ok () m' ∧ valid m'.ctx ∧
    tables m'.ctx = tables m.ctx \ {table} ∧
    ∀ other ∈ tables m'.ctx, usage m'.ctx other = usage m.ctx other ∧
      m'.frames other = m.frames other

variable {ctx : MmuContext κ} {L : Lawful ctx} {m m' m'' : Machine κ} {frames frames' : Frames}
  {root table next level : ℕ} {vaddr paddr : BitVec 64} {path front walked : List (Fin 512)}
  {idx : Fin 512} {entry : PageMapEntry} {flags : PageFlags}

theorem setEntry_apply (other : ℕ) (at' : Fin 512) : setEntry frames table idx entry other at' =
    if other = table ∧ at' = idx then entry else frames other at' := by
  unfold setEntry
  by_cases same : other = table
  · subst same
    by_cases here : at' = idx
    · subst here
      simp
    · simp [here]
  · simp [same]

theorem setEntry_self : setEntry frames table idx entry table idx = entry := by
  rw [setEntry_apply, if_pos ⟨rfl, rfl⟩]

theorem setEntry_of_ne {other : ℕ} {at' : Fin 512} (apart : (other, at') ≠ (table, idx)) :
    setEntry frames table idx entry other at' = frames other at' := by
  rw [setEntry_apply, if_neg]
  intro same
  exact apart (by rw [same.1, same.2])

/-- No table is reached twice, all are in use, and their usage is the number of present entries. -/
structure WellFormed (L : Lawful ctx) (m : Machine κ) (root : ℕ) : Prop where
  valid : L.valid m.ctx
  tree : Tree pageFormat m.frames (L.tables m.ctx) root
  exact : ∀ path table, tableAt m.frames root path = some table →
    L.usage m.ctx table = presentEntries m.frames table

theorem tableAt_of_blank {other : ℕ} (blank : frames root = fun _ => 0)
    (reached : tableAt frames root path = some other) : path = [] ∧ other = root := by
  cases path with
  | nil => exact ⟨rfl, (Option.some.inj reached).symm⟩
  | cons idx path =>
    have word : frames root idx = 0 := congrFun blank idx
    have absent : pageFormat.occupied (frames root idx) = false := by
      rw [word]
      rfl
    rw [tableAt, (walk_absent absent path).1] at reached
    cases reached

/-- A root without entries is a tree. -/
theorem tree_of_blank {tables : Set ℕ} (used : root ∈ tables)
    (blank : frames root = fun _ => 0) : Tree pageFormat frames tables root := by
  refine ⟨?_, ?_⟩
  · intro path other table left right
    rw [(tableAt_of_blank blank left).1, (tableAt_of_blank blank right).1]
  · intro path table reached
    rw [(tableAt_of_blank blank reached).2]
    exact used

theorem WellFormed.of_blank (valid : L.valid m.ctx) (used : root ∈ L.tables m.ctx)
    (zero : L.usage m.ctx root = 0) (blank : m.frames root = fun _ => 0) :
    WellFormed L m root := by
  refine ⟨valid, tree_of_blank used blank, ?_⟩
  intro path table reached
  rw [(tableAt_of_blank blank reached).2, zero]
  refine (usage_eq_zero_iff.mpr fun idx => ?_).symm
  have word : m.frames root idx = 0 := congrFun blank idx
  rw [word]
  rfl

/-- A tree stays well formed as long as its own tables are left alone. -/
theorem WellFormed.frame (good : WellFormed L m root) (valid : L.valid m'.ctx)
    (same : ∀ path table, tableAt m.frames root path = some table → table ∈ L.tables m'.ctx ∧
      L.usage m'.ctx table = L.usage m.ctx table ∧ m'.frames table = m.frames table) :
    WellFormed L m' root ∧
      ∀ walked, tableAt m'.frames root walked = tableAt m.frames root walked ∧
        resolve m'.frames root walked = resolve m.frames root walked := by
  have walks : ∀ walked, tableAt m'.frames root walked = tableAt m.frames root walked ∧
      resolve m'.frames root walked = resolve m.frames root walked := by
    intro walked
    apply walk_congr
    intro front idx rest table _ reached
    rw [(same front table reached).2.2]
  have before : ∀ path table, tableAt m'.frames root path = some table →
      tableAt m.frames root path = some table := fun path table reached =>
    (walks path).1.symm.trans reached
  refine ⟨⟨valid, ⟨?_, ?_⟩, ?_⟩, walks⟩
  · intro path other table left right
    exact good.tree.injective path other table (before path table left) (before other table right)
  · intro path table reached
    exact (same path table (before path table reached)).1
  · intro path table reached
    have reached := before path table reached
    rw [(same path table reached).2.1, good.exact path table reached]
    exact (usage_congr fun idx => by rw [(same path table reached).2.2]).symm

/-- No step of `Map` changes tables, present entries or other trees, and new tables were unused. -/
structure Kept (L : Lawful ctx) (m m' : Machine κ) (root : ℕ) : Prop where
  wellFormed : WellFormed L m' root
  keeps : ∀ walked table, tableAt m.frames root walked = some table →
    tableAt m'.frames root walked = some table
  origin : ∀ walked table, tableAt m'.frames root walked = some table →
    table ∈ L.tables m.ctx → tableAt m.frames root walked = some table
  noHuge : ∀ vaddr, NoHuge m.frames root vaddr → NoHuge m'.frames root vaddr
  tables : L.tables m.ctx ⊆ L.tables m'.ctx
  entries : ∀ table ∈ L.tables m.ctx, ∀ idx, (m.frames table idx).isPresent →
    m'.frames table idx = m.frames table idx
  outside : ∀ table ∈ L.tables m.ctx, (∀ path, tableAt m.frames root path ≠ some table) →
    m'.frames table = m.frames table

/-- Tables were added and no translation changed. -/
structure Grown (L : Lawful ctx) (m m' : Machine κ) (root : ℕ) : Prop extends
    Kept L m m' root where
  values : ∀ walked, resolve m'.frames root walked = resolve m.frames root walked

/-- What two steps keep is kept. -/
theorem Kept.trans (first : Kept L m m' root) (second : Kept L m' m'' root) :
    Kept L m m'' root where
  wellFormed := second.wellFormed
  keeps walked table reached := second.keeps walked table (first.keeps walked table reached)
  origin walked table reached used :=
    first.origin walked table (second.origin walked table reached (first.tables used)) used
  noHuge vaddr clear := second.noHuge vaddr (first.noHuge vaddr clear)
  tables := first.tables.trans second.tables
  entries table used idx present := by
    have kept := first.entries table used idx present
    rw [← kept]
    apply second.entries table (first.tables used)
    rw [kept]
    exact present
  outside table used apart := by
    rw [← first.outside table used apart]
    apply second.outside table (first.tables used)
    intro path reached
    exact apart path (first.origin path table reached used)

namespace Grown

theorem refl (good : WellFormed L m root) : Grown L m m root :=
  ⟨⟨good, fun _ _ reached => reached, fun _ _ reached _ => reached, fun _ clear => clear,
    subset_rfl, fun _ _ _ _ => rfl, fun _ _ _ => rfl⟩, fun _ => rfl⟩

theorem trans (first : Grown L m m' root) (second : Grown L m' m'' root) : Grown L m m'' root :=
  ⟨first.toKept.trans second.toKept, fun walked =>
    (second.values walked).trans (first.values walked)⟩

/-- A failed allocation changes nothing that matters. -/
theorem of_same (good : WellFormed L m root) (valid : L.valid m'.ctx)
    (tables : L.tables m'.ctx = L.tables m.ctx)
    (same : ∀ table ∈ L.tables m.ctx, L.usage m'.ctx table = L.usage m.ctx table ∧
      m'.frames table = m.frames table) : Grown L m m' root := by
  obtain ⟨wellFormed, walks⟩ := good.frame valid fun path table reached => by
    have used := good.tree.allocated path table reached
    exact ⟨tables.ge used, same table used⟩
  have inside : ∀ path table, tableAt m'.frames root path = some table →
      tableAt m.frames root path = some table := fun path table reached =>
    (walks path).1.symm.trans reached
  refine ⟨⟨wellFormed, fun walked table reached => (walks walked).1.trans reached,
    fun walked table reached _ => inside walked table reached, ?_, tables.ge, ?_, ?_⟩,
    fun walked => (walks walked).2⟩
  · intro vaddr clear front idx rest table split reached
    have used := good.tree.allocated front table (inside front table reached)
    rw [(same table used).2]
    exact clear front idx rest table split (inside front table reached)
  · intro table used idx _
    rw [(same table used).2]
  · intro table used _
    exact (same table used).2

end Grown

/-- A new empty table under an entry that was not present. -/
theorem grown_attach (good : WellFormed L m root)
    (here : tableAt m.frames root path = some table) (bound : path.length < 3)
    (absent : (m.frames table idx).isPresent = false)
    (small : (m.frames table idx).isHuge (4 - path.length) = false)
    (valid : L.valid m'.ctx) (unused : next ∉ L.tables m.ctx) (addressable : next < 2 ^ 40)
    (tables : L.tables m'.ctx = insert next (L.tables m.ctx))
    (counted : L.usage m'.ctx table = L.usage m.ctx table + 1)
    (zero : L.usage m'.ctx next = 0)
    (counts : ∀ other ∈ L.tables m.ctx, other ≠ table →
      L.usage m'.ctx other = L.usage m.ctx other)
    (linked : m'.frames table idx =
      (m.frames table idx).setNextLevelTable next kDefTableFlags)
    (blank : ∀ entry, m'.frames next entry = 0)
    (same : ∀ other ∈ L.tables m.ctx, ∀ entry, (other, entry) ≠ (table, idx) →
      m'.frames other entry = m.frames other entry) :
    Grown L m m' root ∧ tableAt m'.frames root (path ++ [idx]) = some next := by
  have agree : AgreeOff pageFormat m.frames m'.frames root path idx :=
    good.tree.agreeOff here fun other used _ => same other used
  have present : (m'.frames table idx).isPresent = true := by
    rw [linked]
    exact PageMapEntry.isPresent_setNextLevelTable
  have link : pageFormat.child path.length (m'.frames table idx) = some next := by
    rw [child_eq bound present, linked]
    · rw [PageMapEntry.getNextLevelTable_setNextLevelTable addressable]
    · rw [linked, PageMapEntry.isHuge_setNextLevelTable]
      exact small
  have empty : ∀ entry, pageFormat.occupied (m'.frames next entry) = false := by
    intro entry
    rw [blank]
    rfl
  have relinked := agree.attach here absent link empty
  have tree := good.tree.attach unused relinked
  have used := good.tree.allocated path table here
  -- Every table of the new tree is the new one or was in the tree.
  have cases : ∀ walked other, tableAt m'.frames root walked = some other →
      (walked = path ++ [idx] ∧ other = next) ∨ tableAt m.frames root walked = some other := by
    intro walked other reached
    by_cases new : walked = path ++ [idx]
    · subst new
      exact Or.inl ⟨rfl, Option.some.inj (reached.symm.trans relinked.here)⟩
    · exact Or.inr ((relinked.elsewhere walked new).symm.trans reached)
  have entries : ∀ other ∈ L.tables m.ctx, ∀ entry,
      m'.frames other entry = m.frames other entry ∨ (other = table ∧ entry = idx) := by
    intro other inUse entry
    by_cases written : (other, entry) = (table, idx)
    · exact Or.inr (Prod.mk.inj written)
    · exact Or.inl (same other inUse entry written)
  refine ⟨⟨⟨⟨valid, tables ▸ tree, ?_⟩, ?_, ?_, ?_, ?_, ?_, ?_⟩, relinked.resolve⟩, relinked.here⟩
  · intro walked other reached
    rcases cases walked other reached with ⟨_, rfl⟩ | before
    · rw [zero]
      exact (usage_eq_zero_iff.mpr empty).symm
    · by_cases written : other = table
      · subst written
        have count : presentEntries m'.frames other + (m.frames other idx).isPresent.toNat =
            presentEntries m.frames other + (m'.frames other idx).isPresent.toNat :=
          usage_write fun entry apart => same other used entry fun both =>
            apart (Prod.mk.inj both).2
        rw [counted, good.exact walked other before,
          ← Nat.add_zero (presentEntries m'.frames other)]
        rw [absent, present] at count
        exact count.symm
      · have inUse := good.tree.allocated walked other before
        rw [counts other inUse written, good.exact walked other before]
        exact (usage_congr fun entry => same other inUse entry fun both =>
          written (Prod.mk.inj both).1).symm
  · intro walked other reached
    by_cases new : walked = path ++ [idx]
    · subst new
      rw [tableAt_concat here, pageFormat.child_of_absent _ _ absent] at reached
      cases reached
    · exact (relinked.elsewhere walked new).trans reached
  · intro walked other reached inUse
    rcases cases walked other reached with ⟨_, rfl⟩ | before
    · exact absurd inUse unused
    · exact before
  · intro vaddr clear front at' rest other split reached
    rcases cases front other reached with ⟨_, rfl⟩ | before
    · rw [blank]
      exact Bool.and_false _
    · rcases entries other (good.tree.allocated front other before) at' with kept | ⟨rfl, rfl⟩
      · rw [kept]
        exact clear front at' rest other split before
      · rw [linked, PageMapEntry.isHuge_setNextLevelTable]
        exact clear front at' rest other split before
  · rw [tables]
    exact Set.subset_insert next _
  · intro other inUse entry occupied
    rcases entries other inUse entry with kept | ⟨rfl, rfl⟩
    · exact kept
    · rw [absent] at occupied
      cases occupied
  · intro other inUse apart
    funext entry
    rcases entries other inUse entry with kept | ⟨rfl, _⟩
    · exact kept
    · exact absurd here (apart path)

theorem run_readEntry (m : Machine κ) :
    (readEntry table idx).run m = .ok (m.frames table idx) m := rfl

theorem run_writeEntry (m : Machine κ) : (writeEntry table idx entry).run m =
    .ok () { m with frames := setEntry m.frames table idx entry } := rfl

/-- `AllocateTable`, the new entry and its count. -/
theorem run_attachTable (good : WellFormed L m root) (level : ℕ)
    (here : tableAt m.frames root path = some table) (bound : path.length < 3)
    (absent : (m.frames table idx).isPresent = false)
    (small : (m.frames table idx).isHuge (4 - path.length) = false) :
    ∃ result m', (attachTable ctx level table idx).run m = .ok result m' ∧
      Grown L m m' root ∧
      (result = .ok () → ∃ next, tableAt m'.frames root (path ++ [idx]) = some next) := by
  have used := good.tree.allocated path table here
  obtain ⟨result, middle, allocated, valid, same, answer⟩ := L.allocateTable level m good.valid
  unfold attachTable
  rw [run_bind allocated]
  rcases answer with ⟨error, rfl, tables⟩ | ⟨next, rfl, unused, addressable, tables, zero, blank⟩
  · exact ⟨.error error, middle, rfl, .of_same good valid tables same, fun success => by
      cases success⟩
  · have apart : next ≠ table := fun equal => unused (equal ▸ used)
    have usedNow : table ∈ L.tables middle.ctx := by
      rw [tables]
      exact Or.inr used
    have room : L.usage middle.ctx table < 512 := by
      rw [(same table used).1, good.exact path table here]
      exact (usage_lt absent).trans_eq (Fintype.card_fin 512)
    -- The machine between the write of the entry and its count.
    let written : Machine κ := { middle with
      frames := setEntry middle.frames table idx
        ((middle.frames table idx).setNextLevelTable next kDefTableFlags) }
    obtain ⟨after, counted, validAfter, tablesAfter, usageAfter⟩ :=
      L.increaseUsage table written valid usedNow room
    refine ⟨.ok (), ⟨written.frames, after⟩, ?_, ?_⟩
    · rw [run_bind (run_readEntry middle),
        run_bind (run_writeEntry middle), run_bind counted]
      rfl
    · have entry : middle.frames table idx = m.frames table idx := by rw [(same table used).2]
      obtain ⟨grown, reached⟩ : Grown L m ⟨written.frames, after⟩ root ∧
          tableAt written.frames root (path ++ [idx]) = some next := by
        apply grown_attach good here bound absent small validAfter unused addressable
          (tablesAfter.trans tables)
        · rw [usageAfter, Function.update_self]
          rw [(same table used).1]
        · rw [usageAfter, Function.update_of_ne apart]
          exact zero
        · intro other inUse notTable
          rw [usageAfter, Function.update_of_ne notTable]
          exact (same other inUse).1
        · change setEntry middle.frames table idx _ table idx = _
          rw [setEntry_self, entry]
        · intro at'
          change setEntry middle.frames table idx _ next at' = 0
          rw [setEntry_of_ne fun both => apart (Prod.mk.inj both).1, blank]
        · intro other inUse at' notWritten
          change setEntry middle.frames table idx _ other at' = _
          rw [setEntry_of_ne notWritten, (same other inUse).2]
      exact ⟨grown, fun _ => ⟨next, reached⟩⟩

theorem child_eq_some {depth : ℕ} (child : pageFormat.child depth entry = some next) :
    next = entry.getNextLevelTable := by
  rw [child_def] at child
  split at child
  · exact (Option.some.inj child).symm
  · cases child

/-- The walk of `Map` follows a present entry without looking at its size. -/
theorem run_nextTable_of_present (ctx : MmuContext κ) (level : ℕ)
    (present : (m.frames table idx).isPresent = true) :
    (nextTable ctx level table idx).run m =
      .ok (.ok (m.frames table idx).getNextLevelTable) m := by
  unfold nextTable
  rw [run_bind (run_readEntry m), if_pos present]
  rfl

/-- The call returns an error. -/
def Fails {α : Type} (call : Kernel (Machine κ) (Except MemError α)) (m : Machine κ) : Prop :=
  ∃ error m', EStateM.run call m = .ok (.error error) m'

/-- A level of the walk fails where a missing table cannot be allocated. -/
theorem fails_nextTable_iff : Fails (nextTable ctx level table idx) m ↔
    (m.frames table idx).isPresent = false ∧ Fails (ctx.allocateTable level) m := by
  constructor
  · rintro ⟨error, m', ran⟩
    by_cases present : (m.frames table idx).isPresent
    · cases ran.symm.trans (run_nextTable_of_present ctx level present)
    · refine ⟨eq_false_of_ne_true present, ?_⟩
      unfold nextTable at ran
      rw [run_bind (run_readEntry m), if_neg present] at ran
      obtain ⟨attached, m₁, attaching, ran⟩ := run_bind_eq_ok ran
      obtain ⟨allocated, m₂, allocating, attaching⟩ := run_bind_eq_ok attaching
      cases allocated with
      | error error => exact ⟨error, m₂, allocating⟩
      | ok next =>
        obtain ⟨_, _, _, attaching⟩ := run_bind_eq_ok attaching
        obtain ⟨_, _, _, attaching⟩ := run_bind_eq_ok attaching
        obtain ⟨_, _, _, attaching⟩ := run_bind_eq_ok attaching
        cases attaching
        cases ran
  · rintro ⟨absent, error, m', ran⟩
    refine ⟨error, m', ?_⟩
    have attaching : (attachTable ctx level table idx).run m = .ok (.error error) m' := by
      rw [attachTable, run_bind ran]
      rfl
    unfold nextTable
    rw [run_bind (run_readEntry m), if_neg (ne_true_of_eq_false absent), run_bind attaching]
    rfl

/-- `AllocateTable` fails on the walk of `Map`: for the table below this one, or
further down. -/
inductive AllocationFails (ctx : MmuContext κ) (vaddr : BitVec 64) : ℕ → ℕ → Machine κ → Prop where
  | here {level table : ℕ} {m : Machine κ} :
      (m.frames table (pmeIdx (level + 2) vaddr)).isPresent = false →
      Fails (ctx.allocateTable (level + 1)) m → AllocationFails ctx vaddr (level + 1) table m
  | deeper {level table next : ℕ} {m m' : Machine κ} :
      (nextTable ctx (level + 1) table (pmeIdx (level + 2) vaddr)).run m = .ok (.ok next) m' →
      AllocationFails ctx vaddr level next m' → AllocationFails ctx vaddr (level + 1) table m

/-- The walk of `Map` fails for no other reason than a failed allocation. -/
theorem fails_walkAllocating_iff :
    Fails (walkAllocating ctx vaddr level table) m ↔ AllocationFails ctx vaddr level table m := by
  constructor
  · intro ⟨error, m', ran⟩
    induction level generalizing m table with
    | zero => cases ran
    | succ level ih =>
      obtain ⟨result, m₁, stepped, ran⟩ := run_bind_eq_ok ran
      cases result with
      | error error =>
        obtain ⟨absent, failed⟩ := fails_nextTable_iff.mp ⟨error, m₁, stepped⟩
        exact .here absent failed
      | ok next => exact .deeper stepped (ih ran)
  · intro failed
    induction failed with
    | here absent failed =>
      obtain ⟨error, m', ran⟩ := fails_nextTable_iff.mpr ⟨absent, failed⟩
      exact ⟨error, m', by rw [walkAllocating, run_bind ran]; rfl⟩
    | deeper stepped _ ih =>
      obtain ⟨error, m', ran⟩ := ih
      exact ⟨error, m', by rw [walkAllocating, run_bind stepped]; exact ran⟩

/-- One level of the walk of `Map`. -/
theorem run_nextTable (good : WellFormed L m root) (level : ℕ)
    (here : tableAt m.frames root path = some table) (bound : path.length < 3)
    (small : (m.frames table idx).isHuge (4 - path.length) = false) :
    ∃ result m', (nextTable ctx level table idx).run m = .ok result m' ∧
      Grown L m m' root ∧
      ∀ next, result = .ok next → tableAt m'.frames root (path ++ [idx]) = some next := by
  by_cases present : (m.frames table idx).isPresent
  · refine ⟨_, m, run_nextTable_of_present ctx level present, .refl good, ?_⟩
    intro next answer
    cases answer
    exact tableAt_next here bound present small
  · obtain ⟨attached, m', ran, grown, reached⟩ :=
      run_attachTable good level here bound (eq_false_of_ne_true present) small
    unfold nextTable
    rw [run_bind (run_readEntry m), if_neg present, run_bind ran]
    cases attached with
    | error error => exact ⟨_, m', rfl, grown, fun _ answer => by cases answer⟩
    | ok value =>
      refine ⟨_, m', rfl, grown, ?_⟩
      intro next answer
      obtain ⟨found, reached⟩ := reached rfl
      rw [reached, ← Except.ok.inj answer]
      rw [tableAt_concat (grown.keeps path table here)] at reached
      exact congrArg some (child_eq_some reached)

/-- The walk of `Map` down to the level 1 table. -/
theorem run_walkAllocating (good : WellFormed L m root) (clear : NoHuge m.frames root vaddr)
    (split : indices vaddr = front ++ indicesFrom vaddr (level + 1))
    (here : tableAt m.frames root front = some table) :
    ∃ result m', (walkAllocating ctx vaddr level table).run m = .ok result m' ∧
      Grown L m m' root ∧ ∀ pt, result = .ok pt → ∃ path,
        indices vaddr = path ++ [pmeIdx 1 vaddr] ∧ tableAt m'.frames root path = some pt := by
  induction level generalizing m front table with
  | zero =>
    refine ⟨.ok table, m, rfl, .refl good, ?_⟩
    intro pt answer
    cases answer
    exact ⟨front, split, here⟩
  | succ level ih =>
    have length := length_front split
    obtain ⟨result, m', ran, grown, reached⟩ := run_nextTable good (level + 1) here (by omega)
      (clear front (pmeIdx (level + 2) vaddr) (indicesFrom vaddr (level + 1)) table split here)
    rw [walkAllocating, run_bind ran]
    cases result with
    | error error => exact ⟨_, m', rfl, grown, fun _ answer => by cases answer⟩
    | ok next =>
      obtain ⟨result, m'', ran', grown', found⟩ :=
        ih grown.wellFormed (grown.noHuge vaddr clear) (split.trans (List.append_cons ..))
          (reached next rfl)
      exact ⟨result, m'', ran', grown.trans grown', found⟩

/-- What one written level 1 entry does to all walks and usages. -/
structure LeafWritten (frames frames' : Frames) (root pt : ℕ) (path : List (Fin 512))
    (idx : Fin 512) (entry : PageMapEntry) : Prop where
  tables : ∀ walked, tableAt frames' root walked = tableAt frames root walked
  here : resolve frames' root (path ++ [idx]) = pageFormat.read 3 entry
  elsewhere : ∀ walked, ¬ path ++ [idx] <+: walked →
    resolve frames' root walked = resolve frames root walked
  noHuge : ∀ vaddr, NoHuge frames root vaddr → NoHuge frames' root vaddr
  usage : presentEntries frames' pt + (frames pt idx).isPresent.toNat =
    presentEntries frames pt + entry.isPresent.toNat
  others : ∀ other, other ≠ pt → frames' other = frames other

/-- A leaf is written without changing the tables. -/
theorem leafWritten {tables : Set ℕ} {pt : ℕ} (tree : Tree pageFormat frames tables root)
    (here : tableAt frames root path = some pt) (leaf : path.length = 3) :
    LeafWritten frames (setEntry frames pt idx entry) root pt path idx entry := by
  have same : ∀ other at', (other, at') ≠ (pt, idx) →
      setEntry frames pt idx entry other at' = frames other at' :=
    fun other at' apart => setEntry_of_ne apart
  have agree : AgreeOff pageFormat frames (setEntry frames pt idx entry) root path idx :=
    tree.agreeOff here fun other _ _ => same other
  have none_child : ∀ word, pageFormat.child path.length word = none := by
    intro word
    rw [leaf]
    exact child_leaf
  obtain ⟨kept, value, elsewhere⟩ := agree.write here (none_child _) (none_child _)
  refine ⟨kept, ?_, elsewhere, ?_, ?_, ?_⟩
  · have read := value []
    rw [leaf, setEntry_self] at read
    exact read
  · intro vaddr clear front at' rest other split reached
    rw [tableAt, kept] at reached
    by_cases written : (other, at') = (pt, idx)
    · cases written
      rw [tree.injective front path pt reached here, leaf]
      rfl
    · rw [same other at' written]
      exact clear front at' rest other split reached
  · have count := usage_write (F := pageFormat) fun at' apart =>
      same pt at' fun both => apart (Prod.mk.inj both).2
    rw [setEntry_self] at count
    exact count
  · intro other apart
    funext at'
    exact same other at' fun both => apart (Prod.mk.inj both).1

/-- A counted leaf write keeps the tree well formed. -/
theorem LeafWritten.wellFormed {pt : ℕ} (good : WellFormed L m root)
    (written : LeafWritten m.frames m'.frames root pt path idx entry) (valid : L.valid m'.ctx)
    (tables : L.tables m'.ctx = L.tables m.ctx)
    (counted : L.usage m'.ctx pt + (m.frames pt idx).isPresent.toNat =
      L.usage m.ctx pt + entry.isPresent.toNat)
    (counts : ∀ other, other ≠ pt → L.usage m'.ctx other = L.usage m.ctx other) :
    WellFormed L m' root := by
  refine ⟨valid, ?_, ?_⟩
  · rw [tables]
    exact good.tree.congr written.tables
  · intro walked table reached
    rw [written.tables] at reached
    have exact := good.exact walked table reached
    by_cases here : table = pt
    · subst here
      have usage := written.usage
      omega
    · rw [counts table here, exact]
      exact (usage_congr fun at' => by rw [written.others table here]).symm

/-- The address is mapped and no other address is translated differently. -/
structure Mapped (L : Lawful ctx) (m m' : Machine κ) (root : ℕ) (vaddr paddr : BitVec 64)
    (flags : PageFlags) : Prop extends Kept L m m' root where
  here : resolve m'.frames root (indices vaddr) =
    some (3, PageMapEntry.setFrameAddress paddr (toArchFlags flags))
  elsewhere : ∀ walked, ¬ indices vaddr <+: walked →
    resolve m'.frames root walked = resolve m.frames root walked

/-- The leaf of `Map`. -/
theorem run_mapLeaf {pt : ℕ} (good : WellFormed L m root)
    (split : indices vaddr = path ++ [pmeIdx 1 vaddr])
    (reached : tableAt m.frames root path = some pt) (present : flags.present = true)
    (paddr : BitVec 64) :
    ((mapLeaf ctx pt vaddr paddr flags).run m = .ok (.error .invalidArgument) m ∧
        resolve m.frames root (indices vaddr) ≠ none) ∨
      ∃ m', (mapLeaf ctx pt vaddr paddr flags).run m = .ok (.ok ()) m' ∧
        resolve m.frames root (indices vaddr) = none ∧ Mapped L m m' root vaddr paddr flags := by
  have leaf : path.length = 3 := Nat.succ.inj (length_front (k := 1) split)
  have value : resolve m.frames root (indices vaddr) =
      pageFormat.read 3 (m.frames pt (pmeIdx 1 vaddr)) := by
    rw [split, Mmu.resolve, resolve_append reached, Nat.zero_add, leaf,
      RadixTree.resolve, child_leaf]
  have used := good.tree.allocated path pt reached
  unfold mapLeaf
  rw [run_bind (run_readEntry m)]
  by_cases taken : (m.frames pt (pmeIdx 1 vaddr)).isPresent
  · rw [if_pos taken, value]
    exact Or.inl ⟨rfl, (if_pos taken).trans_ne (Option.some_ne_none _)⟩
  · rw [if_neg taken, value]
    have absent := eq_false_of_ne_true taken
    have room : L.usage m.ctx pt < 512 := by
      rw [good.exact path pt reached]
      exact (usage_lt absent).trans_eq (Fintype.card_fin 512)
    let entry := PageMapEntry.setFrameAddress paddr (toArchFlags flags)
    have on : entry.isPresent = true := by
      rw [PageMapEntry.isPresent_setFrameAddress, present]
    obtain ⟨after, counted, valid, tables, usage⟩ := L.increaseUsage pt
      { m with frames := setEntry m.frames pt (pmeIdx 1 vaddr) entry } good.valid used room
    have written : LeafWritten m.frames (setEntry m.frames pt (pmeIdx 1 vaddr) entry) root pt path
        (pmeIdx 1 vaddr) entry := leafWritten good.tree reached leaf
    refine Or.inr ⟨⟨setEntry m.frames pt (pmeIdx 1 vaddr) entry, after⟩, ?_, if_neg taken, ?_⟩
    · rw [run_bind (run_writeEntry m), run_bind counted]
      rfl
    · refine ⟨⟨?_, ?_, ?_, written.noHuge, tables.ge, ?_, ?_⟩, ?_, ?_⟩
      · apply LeafWritten.wellFormed good written valid tables
        · rw [usage, Function.update_self, absent, on]
          rfl
        · intro other apart
          rw [usage, Function.update_of_ne apart]
      · intro walked table before
        exact (written.tables walked).trans before
      · intro walked table after _
        exact (written.tables walked).symm.trans after
      · intro table _ idx occupied
        apply setEntry_of_ne
        intro both
        cases both
        exact taken occupied
      · intro table _ apart
        exact written.others table fun same => apart path (same ▸ reached)
      · rw [split, written.here]
        exact if_pos on
      · intro walked apart
        rw [split] at apart
        exact written.elsewhere walked apart

/-- `Map` returns. It fails exactly if the page is present or a table cannot be allocated. -/
theorem run_map (good : WellFormed L m root) (clear : NoHuge m.frames root vaddr)
    (present : flags.present = true) (paddr : BitVec 64) :
    (∃ error m', (map ctx root vaddr paddr flags).run m = .ok (.error error) m' ∧
        Grown L m m' root ∧ (resolve m.frames root (indices vaddr) ≠ none ∨
          AllocationFails ctx vaddr 3 root m)) ∨
      ∃ m', (map ctx root vaddr paddr flags).run m = .ok (.ok ()) m' ∧
        Mapped L m m' root vaddr paddr flags ∧ resolve m.frames root (indices vaddr) = none ∧
        ¬ AllocationFails ctx vaddr 3 root m := by
  have whole : indices vaddr = [] ++ indicesFrom vaddr (3 + 1) := rfl
  obtain ⟨walked, middle, ran, grown, found⟩ := run_walkAllocating good clear whole rfl
  unfold map
  rw [run_bind ran]
  cases walked with
  | error error =>
    have failed := fails_walkAllocating_iff.mp ⟨error, middle, ran⟩
    exact Or.inl ⟨error, middle, rfl, grown, Or.inr failed⟩
  | ok pt =>
    obtain ⟨path, split, reached⟩ := found pt rfl
    rcases run_mapLeaf grown.wellFormed split reached present paddr with
      ⟨taken, full⟩ | ⟨m', mapped, missing, result⟩
    · rw [grown.values] at full
      exact Or.inl ⟨_, middle, taken, grown, Or.inl full⟩
    · rw [grown.values] at missing
      refine Or.inr ⟨m', mapped, ⟨grown.toKept.trans result.toKept, result.here, ?_⟩, missing, ?_⟩
      · intro walked apart
        rw [result.elsewhere walked apart, grown.values]
      · intro failed
        obtain ⟨error, _, failed⟩ := fails_walkAllocating_iff.mpr failed
        cases ran.symm.trans failed

/-- What every returned `Map` keeps. -/
theorem kept_of_map {result : Except MemError Unit} (good : WellFormed L m root)
    (clear : NoHuge m.frames root vaddr) (present : flags.present = true)
    (ran : (map ctx root vaddr paddr flags).run m = .ok result m') : Kept L m m' root := by
  rcases run_map good clear present paddr with ⟨_, _, ran', grown, _⟩ | ⟨_, ran', mapped, _⟩
  · cases ran.symm.trans ran'
    exact grown.toKept
  · cases ran.symm.trans ran'
    exact mapped.toKept

end AlkOS.Hal.Mmu
