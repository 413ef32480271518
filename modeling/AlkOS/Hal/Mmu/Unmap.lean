import AlkOS.Hal.Mmu.Map

/-!
# Unmapping

`Unmap` clears the leaf of an address and then goes back up the walk. A table
whose usage drops to zero is freed and its entry in the parent cleared, which
takes one more entry from the parent. Between the two the parent's usage is one
too high.
-/

namespace AlkOS.Hal.Mmu

open Kernel RadixTree Function

variable {κ : Type} {ctx : MmuContext κ} {L : Lawful ctx} {m m' m'' : Machine κ}
  {frames frames' : Frames} {root table parent level pt : ℕ} {vaddr : BitVec 64}
  {path front walked : List (Fin 512)} {idx : Fin 512} {parents : List (ℕ × Fin 512)} {kept : ℕ}

/-- The recorded parents are the tables on the way to the end of `path`. -/
def Trail (frames : Frames) (root : ℕ) : List (Fin 512) → List (ℕ × Fin 512) → Prop
  | path, [] => path = []
  | path, (parent, idx) :: parents => ∃ front, path = front ++ [idx] ∧
      tableAt frames root front = some parent ∧ Trail frames root front parents

theorem Trail.congr (trail : Trail frames root path parents)
    (same : ∀ walked, walked.length < path.length →
      tableAt frames' root walked = tableAt frames root walked) :
    Trail frames' root path parents := by
  induction parents generalizing path with
  | nil => exact trail
  | cons last parents ih =>
    obtain ⟨front, rfl, here, above⟩ := trail
    have shorter : front.length < (front ++ [last.2]).length := by
      rw [List.length_append, List.length_singleton]
      omega
    refine ⟨front, rfl, (same front shorter).trans here, ih above ?_⟩
    intro walked less
    exact same walked (less.trans shorter)

/-- The walk of `Unmap` ends at an entry that is not present or finds the leaf. -/
theorem walkDown_cases (clear : NoHuge frames root vaddr)
    (split : indices vaddr = front ++ indicesFrom vaddr (level + 1))
    (here : tableAt frames root front = some table) (trail : Trail frames root front parents) :
    (walkDown frames vaddr level table parents = none ∧
        resolve frames root (indices vaddr) = none) ∨
      ∃ path above pt, walkDown frames vaddr level table parents = some (above, pt) ∧
        indices vaddr = path ++ [pmeIdx 1 vaddr] ∧ Trail frames root path above ∧
        tableAt frames root path = some pt ∧ (frames pt (pmeIdx 1 vaddr)).isPresent = true := by
  have missing : ∀ idx rest, indices vaddr = front ++ idx :: rest →
      (frames table idx).isPresent = false → resolve frames root (indices vaddr) = none := by
    intro idx rest split absent
    rw [split, resolve, resolve_append here]
    exact (walk_absent absent rest).2
  induction level generalizing front table parents with
  | zero =>
    by_cases present : (frames table (pmeIdx 1 vaddr)).isPresent
    · exact Or.inr ⟨front, parents, table, if_pos present, split, trail, here, present⟩
    · exact Or.inl ⟨if_neg present, missing _ _ split (eq_false_of_ne_true present)⟩
  | succ level ih =>
    have length := length_front split
    rw [walkDown]
    by_cases present : (frames table (pmeIdx (level + 2) vaddr)).isPresent
    · rw [if_pos present]
      have small := clear front (pmeIdx (level + 2) vaddr) (indicesFrom vaddr (level + 1)) table
        split here
      have reached : tableAt frames root (front ++ [pmeIdx (level + 2) vaddr]) =
          some (frames table (pmeIdx (level + 2) vaddr)).getNextLevelTable :=
        tableAt_next here (by omega) present small
      have onward : Trail frames root (front ++ [pmeIdx (level + 2) vaddr])
          ((table, pmeIdx (level + 2) vaddr) :: parents) := ⟨front, rfl, here, trail⟩
      apply ih (split.trans (List.append_cons ..)) reached onward
      intro idx rest split absent
      rw [split, resolve, resolve_append reached]
      exact (walk_absent absent rest).2
    · rw [if_neg present]
      exact Or.inl ⟨rfl, missing _ _ split (eq_false_of_ne_true present)⟩

/-- A well-formed tree, but the table at the end of `path` has one entry less than reported. -/
structure Owing (L : Lawful ctx) (m : Machine κ) (root : ℕ) (path : List (Fin 512)) : Prop where
  valid : L.valid m.ctx
  tree : Tree pageFormat m.frames (L.tables m.ctx) root
  debt : ∀ table, tableAt m.frames root path = some table →
    L.usage m.ctx table = presentEntries m.frames table + 1
  exact : ∀ walked table, tableAt m.frames root walked = some table → walked ≠ path →
    L.usage m.ctx table = presentEntries m.frames table

/-- Freeing a table leaves the contents of memory alone. -/
def KeepsFrames (ctx : MmuContext κ) : Prop := ∀ table level m m',
  (ctx.freeTable table level).run m = .ok () m' → m'.frames = m.frames

/-- The reported entry is taken back. -/
theorem Owing.decreased {after : κ} (owing : Owing L m root path)
    (here : tableAt m.frames root path = some table) (valid : L.valid after)
    (tables : L.tables after = L.tables m.ctx)
    (usage : L.usage after =
      update (L.usage m.ctx) table (L.usage m.ctx table - 1)) :
    WellFormed L ⟨m.frames, after⟩ root := by
  refine ⟨valid, tables ▸ owing.tree, ?_⟩
  intro walked other reached
  rw [usage]
  by_cases same : other = table
  · subst same
    rw [update_self, owing.debt other here, Nat.add_sub_cancel]
  · rw [update_of_ne same]
    apply owing.exact walked other reached
    intro ends
    rw [ends, here] at reached
    exact same (Option.some.inj reached).symm

/-- The machine after a table was freed and its entry in the parent cleared. -/
structure Detached (L : Lawful ctx) (m m' : Machine κ) (root : ℕ) (front : List (Fin 512))
    (idx : Fin 512) (parent table : ℕ) : Prop where
  relinked : Relinked pageFormat m.frames m'.frames root front idx none
  owing : Owing L m' root front
  tables : L.tables m'.ctx = L.tables m.ctx \ {table}
  usage : ∀ other ∈ L.tables m'.ctx, L.usage m'.ctx other = L.usage m.ctx other
  others : ∀ other ∈ L.tables m'.ctx, other ≠ parent → m'.frames other = m.frames other
  frames : KeepsFrames ctx → m'.frames = setEntry m.frames parent idx 0

/-- An empty table is freed and its entry in the parent cleared. -/
theorem WellFormed.detach (good : WellFormed L m root)
    (above : tableAt m.frames root front = some parent)
    (here : tableAt m.frames root (front ++ [idx]) = some table)
    (empty : presentEntries m.frames table = 0) (level : ℕ) :
    ∃ m', (ctx.freeTable table level >>= fun _ => writeEntry parent idx 0).run m =
        .ok () m' ∧ Detached L m m' root front idx parent table := by
  have used := good.tree.allocated _ table here
  obtain ⟨freed, ran, valid, tables, same⟩ := L.freeTable table level m good.valid used
  have child : pageFormat.child front.length (m.frames parent idx) = some table := by
    rw [← tableAt_concat above]
    exact here
  have present : (m.frames parent idx).isPresent = true := by
    by_contra absent
    rw [pageFormat.child_of_absent _ _ (eq_false_of_ne_true absent)] at child
    cases child
  have remains : ∀ other ∈ L.tables m.ctx, other ≠ table → other ∈ L.tables freed.ctx := by
    intro other inUse notFreed
    rw [tables]
    exact ⟨inUse, notFreed⟩
  have words : ∀ other ∈ L.tables freed.ctx, ∀ at', (other, at') ≠ (parent, idx) →
      setEntry freed.frames parent idx 0 other at' = m.frames other at' := by
    intro other inUse at' notWritten
    rw [setEntry_of_ne notWritten, (same other inUse).2]
  have agree : AgreeOff pageFormat m.frames (setEntry freed.frames parent idx 0)
      root front idx := by
    apply good.tree.agreeOff above
    intro other inUse notBelow at' notWritten
    exact words other (remains other inUse fun equal => notBelow (equal ▸ here)) at' notWritten
  have cut : pageFormat.occupied (setEntry freed.frames parent idx 0 parent idx) = false := by
    rw [setEntry_self]
    rfl
  have relinked := agree.detach above child (usage_eq_zero_iff.mp empty) cut
  refine ⟨{ freed with frames := setEntry freed.frames parent idx 0 }, ?_, relinked, ?_, tables,
    fun other inUse => (same other inUse).1, ?_, ?_⟩
  · rw [run_bind ran]
    rfl
  · have before : ∀ walked other, tableAt (setEntry freed.frames parent idx 0) root walked =
        some other → tableAt m.frames root walked = some other ∧ other ≠ table := by
      intro walked other reached
      by_cases ends : walked = front ++ [idx]
      · rw [ends, tableAt, relinked.here] at reached
        cases reached
      · rw [tableAt, relinked.elsewhere walked ends] at reached
        refine ⟨reached, ?_⟩
        intro equal
        rw [equal] at reached
        exact ends (good.tree.injective _ _ table reached here)
    refine ⟨valid, tables ▸ good.tree.detach here relinked, ?_, ?_⟩
    · intro other reached
      obtain ⟨reached, notFreed⟩ := before front other reached
      obtain rfl : other = parent := Option.some.inj (reached.symm.trans above)
      have inUse := remains other (good.tree.allocated _ other above) notFreed
      have count : presentEntries (setEntry freed.frames other idx 0) other +
          (m.frames other idx).isPresent.toNat = presentEntries m.frames other +
          (setEntry freed.frames other idx 0 other idx).isPresent.toNat :=
        usage_write fun at' notIdx => words other inUse at' fun both => notIdx (Prod.mk.inj both).2
      have off : (setEntry freed.frames other idx 0 other idx).isPresent = false := cut
      rw [present, off, Bool.toNat_true, Bool.toNat_false] at count
      rw [(same other inUse).1, good.exact front other above, count, Nat.add_zero]
    · intro walked other reached notFront
      obtain ⟨reached, notFreed⟩ := before walked other reached
      have inUse := remains other (good.tree.allocated _ other reached) notFreed
      have notParent : other ≠ parent := fun equal =>
        notFront (good.tree.injective _ _ parent (equal ▸ reached) above)
      rw [(same other inUse).1, good.exact walked other reached]
      exact (usage_congr fun at' => words other inUse at' fun both =>
        notParent (Prod.mk.inj both).1).symm
  · intro other inUse notParent
    funext at'
    exact words other inUse at' fun both => notParent (Prod.mk.inj both).1
  · intro keeps
    rw [keeps table level m freed ran]

/-- The tables on `path` deeper than `kept` were freed and their entries cleared. -/
structure Cut (L : Lawful ctx) (m m' : Machine κ) (root : ℕ) (path : List (Fin 512))
    (kept : ℕ) : Prop where
  bound : kept ≤ path.length
  wellFormed : WellFormed L m' root
  values : ∀ walked, resolve m'.frames root walked = resolve m.frames root walked
  walks : ∀ walked, tableAt m'.frames root walked =
    if kept < walked.length ∧ walked <+: path then none else tableAt m.frames root walked
  tables : ∀ table, table ∈ L.tables m'.ctx ↔ table ∈ L.tables m.ctx ∧
    ∀ walked, walked <+: path → kept < walked.length → tableAt m.frames root walked ≠ some table
  counts : ∀ walked table, walked <+: path → kept < walked.length →
    tableAt m.frames root walked = some table → L.usage m.ctx table = 1
  survivor : 0 < kept → ∀ walked table, walked <+: path → walked.length = kept →
    tableAt m.frames root walked = some table → 0 < presentEntries m'.frames table
  outside : ∀ table ∈ L.tables m.ctx, (∀ path, tableAt m.frames root path ≠ some table) →
    m'.frames table = m.frames table
  cleared : KeepsFrames ctx → ∀ walked idx table, walked ++ [idx] <+: path →
    kept ≤ walked.length → tableAt m.frames root walked = some table → m'.frames table idx = 0
  words : KeepsFrames ctx → ∀ table idx, m'.frames table idx = m.frames table idx ∨
    ∃ walked, walked ++ [idx] <+: path ∧ kept ≤ walked.length ∧
      tableAt m.frames root walked = some table

/-- The cleanup stops without freeing anything. -/
theorem Cut.stop {after : κ} (good : WellFormed L ⟨m.frames, after⟩ root)
    (tables : L.tables after = L.tables m.ctx)
    (remains : path ≠ [] → ∀ table, tableAt m.frames root path = some table →
      0 < presentEntries m.frames table) :
    Cut L m ⟨m.frames, after⟩ root path path.length := by
  have long : ∀ {walked : List (Fin 512)}, walked <+: path → ¬ path.length < walked.length :=
    fun inside => Nat.not_lt.mpr inside.length_le
  refine ⟨le_rfl, good, fun _ => rfl, ?_, ?_, ?_, ?_, fun _ _ _ => rfl, ?_, fun _ _ _ => Or.inl rfl⟩
  · intro walked
    rw [if_neg fun both => long both.2 both.1]
  · intro table
    rw [tables]
    exact ⟨fun inUse => ⟨inUse, fun _ inside less => absurd less (long inside)⟩, fun both => both.1⟩
  · intro walked table inside less
    exact absurd less (long inside)
  · intro positive walked table inside same reached
    obtain rfl := inside.eq_of_length same
    exact remains (List.ne_nil_of_length_pos positive) table reached
  · intro _ walked idx table inside less
    have bound := inside.length_le
    rw [List.length_append, List.length_singleton] at bound
    omega

/-- Walks inside the rest of the path do not see the freed table. -/
theorem Detached.before (detached : Detached L m m' root front idx parent table)
    (inside : walked <+: front) :
    tableAt m'.frames root walked = tableAt m.frames root walked := by
  apply detached.relinked.elsewhere
  intro same
  have shorter := inside.length_le
  rw [same, List.length_append, List.length_singleton] at shorter
  omega

/-- A table that was freed and then all tables that were cut above it. -/
theorem Cut.extend {after : κ} (above : tableAt m.frames root front = some parent)
    (here : tableAt m.frames root (front ++ [idx]) = some table)
    (count : L.usage m.ctx table = 1) (tables : L.tables after = L.tables m.ctx)
    (usage : ∀ other, other ≠ table → L.usage after other = L.usage m.ctx other)
    (detached : Detached L ⟨m.frames, after⟩ m' root front idx parent table)
    (rest : Cut L m' m'' root front kept) : Cut L m m'' root (front ++ [idx]) kept := by
  have bound := rest.bound
  have length : (front ++ [idx]).length = front.length + 1 := by
    rw [List.length_append, List.length_singleton]
  have whole : kept < (front ++ [idx]).length := by omega
  have origin : ∀ walked other, tableAt m'.frames root walked = some other →
      tableAt m.frames root walked = some other := by
    intro walked other reached
    by_cases ends : walked = front ++ [idx]
    · rw [ends, tableAt, detached.relinked.here] at reached
      cases reached
    · exact (detached.relinked.elsewhere walked ends).symm.trans reached
  have remains : ∀ walked other, walked <+: front → tableAt m.frames root walked = some other →
      other ∈ L.tables m'.ctx := fun walked other inside reached =>
    detached.owing.tree.allocated walked other ((detached.before inside).trans reached)
  refine ⟨by omega, rest.wellFormed, ?_, ?_, ?_, ?_, ?_, ?_, ?_, ?_⟩
  · intro walked
    rw [rest.values, resolve, detached.relinked.resolve]
  · intro walked
    rw [rest.walks]
    by_cases ends : walked = front ++ [idx]
    · have beyond : ¬ (kept < (front ++ [idx]).length ∧ front ++ [idx] <+: front) := by
        intro both
        have shorter := both.2.length_le
        omega
      rw [ends, if_neg beyond, if_pos ⟨whole, List.prefix_rfl⟩]
      exact detached.relinked.here
    · have same : walked <+: front ++ [idx] ↔ walked <+: front := by
        rw [List.prefix_concat_iff]
        exact or_iff_right ends
      simp only [same]
      by_cases cut : kept < walked.length ∧ walked <+: front
      · rw [if_pos cut, if_pos cut]
      · rw [if_neg cut, if_neg cut]
        exact detached.relinked.elsewhere walked ends
  · intro other
    rw [rest.tables, detached.tables, tables]
    constructor
    · rintro ⟨⟨inUse, notFreed⟩, notCut⟩
      refine ⟨inUse, ?_⟩
      intro walked inside deep reached
      rcases List.prefix_concat_iff.mp inside with rfl | inside
      · exact notFreed (Option.some.inj (reached.symm.trans here))
      · exact notCut walked inside deep ((detached.before inside).trans reached)
    · rintro ⟨inUse, notCut⟩
      refine ⟨⟨inUse, ?_⟩, ?_⟩
      · intro same
        cases same
        exact notCut _ List.prefix_rfl whole here
      · intro walked inside deep reached
        exact notCut walked (inside.trans (List.prefix_append front [idx])) deep
          ((detached.before inside).symm.trans reached)
  · intro walked other inside deep reached
    rcases List.prefix_concat_iff.mp inside with rfl | inside
    · rw [← Option.some.inj (here.symm.trans reached)]
      exact count
    · have inUse := remains walked other inside reached
      have notFreed : other ≠ table := by
        rw [detached.tables] at inUse
        exact inUse.2
      rw [← usage other notFreed, ← detached.usage other inUse]
      exact rest.counts walked other inside deep ((detached.before inside).trans reached)
  · intro positive walked other inside same reached
    rcases List.prefix_concat_iff.mp inside with rfl | inside
    · omega
    · exact rest.survivor positive walked other inside same
        ((detached.before inside).trans reached)
  · intro other inUse apart
    have notParent : other ≠ parent := fun same => apart front (same ▸ above)
    have inUse' : other ∈ L.tables m'.ctx := by
      rw [detached.tables, tables]
      exact ⟨inUse, fun same => apart _ (same ▸ here)⟩
    rw [rest.outside other inUse' fun path reached => apart path (origin path other reached)]
    exact detached.others other inUse' notParent
  · intro keeps walked at' other inside deep reached
    rcases List.prefix_concat_iff.mp inside with ends | inside
    · obtain ⟨rfl, last⟩ := List.append_inj' ends rfl
      cases last
      obtain rfl := Option.some.inj (reached.symm.trans above)
      rcases rest.words keeps other idx with kept | ⟨walked', inside', deep', reached'⟩
      · rw [kept, detached.frames keeps, setEntry_self]
      · exact rest.cleared keeps walked' idx other inside' deep' reached'
    · have shorter : walked <+: front := (List.prefix_append walked [at']).trans inside
      exact rest.cleared keeps walked at' other inside deep
        ((detached.before shorter).trans reached)
  · intro keeps other at'
    rcases rest.words keeps other at' with kept | ⟨walked, inside, deep, reached⟩
    · by_cases written : (other, at') = (parent, idx)
      · cases written
        exact Or.inr ⟨front, List.prefix_rfl, bound, above⟩
      · rw [kept, detached.frames keeps]
        exact Or.inl (setEntry_of_ne written)
    · exact Or.inr ⟨walked, inside.trans (List.prefix_append front [idx]), deep,
        origin walked other reached⟩

/-- The cleanup of `Unmap` returns and cuts off the tables that became empty. -/
theorem run_cleanUp (owing : Owing L m root path) (trail : Trail m.frames root path parents)
    (here : tableAt m.frames root path = some table) (level : ℕ) :
    ∃ m' kept, (cleanUp ctx level table parents).run m = .ok () m' ∧
      Cut L m m' root path kept := by
  induction parents generalizing m path table level with
  | nil =>
    obtain rfl : path = [] := trail
    have positive : 0 < L.usage m.ctx table := by
      rw [owing.debt table here]
      omega
    obtain ⟨after, ran, valid, tables, usage⟩ := L.decreaseUsage table m owing.valid
      (owing.tree.allocated _ table here) positive
    refine ⟨⟨m.frames, after⟩, 0, ?_, ?_⟩
    · rw [cleanUp, run_bind ran]
      rfl
    · exact .stop (owing.decreased here valid tables usage) tables fun none => absurd rfl none
  | cons last parents ih =>
    obtain ⟨parent, idx⟩ := last
    obtain ⟨front, rfl, above, trail⟩ := trail
    have debt := owing.debt table here
    have positive : 0 < L.usage m.ctx table := by omega
    obtain ⟨after, ran, valid, tables, usage⟩ := L.decreaseUsage table m owing.valid
      (owing.tree.allocated _ table here) positive
    have good := owing.decreased here valid tables usage
    rw [cleanUp, run_bind ran]
    by_cases empty : presentEntries m.frames table = 0
    · obtain ⟨m', ran', detached⟩ := good.detach above here empty level
      have trail' : Trail m'.frames root front parents := by
        apply trail.congr
        intro walked shorter
        apply detached.relinked.elsewhere
        intro same
        rw [same, List.length_append] at shorter
        omega
      have above' : tableAt m'.frames root front = some parent := by
        rw [tableAt, detached.relinked.elsewhere front (by simp)]
        exact above
      obtain ⟨m'', kept, ran'', rest⟩ := ih detached.owing trail' above' (level + 1)
      refine ⟨m'', kept, ?_, ?_⟩
      · rw [if_pos (decide_eq_true (by omega)), ← bind_assoc, run_bind ran']
        exact ran''
      · refine .extend above here (by omega) tables (fun other apart => ?_) detached rest
        rw [usage, update_of_ne apart]
    · refine ⟨⟨m.frames, after⟩, (front ++ [idx]).length, ?_, ?_⟩
      · rw [if_neg]
        · rfl
        · rw [decide_eq_true_eq]
          omega
      · refine .stop good tables fun _ other reached => ?_
        rw [← Option.some.inj (here.symm.trans reached)]
        omega

/-- The machine after the leaf of an address was cleared. -/
def clearLeaf (m : Machine κ) (pt : ℕ) (vaddr : BitVec 64) : Machine κ :=
  { m with frames := setEntry m.frames pt (pmeIdx 1 vaddr) 0 }

/-- The leaf of an address was cleared, and the tables that became empty were cut off. -/
structure Unmapped (L : Lawful ctx) (m m' : Machine κ) (root : ℕ) (vaddr : BitVec 64)
    (path : List (Fin 512)) (pt kept : ℕ) : Prop where
  split : indices vaddr = path ++ [pmeIdx 1 vaddr]
  leaf : path.length = 3
  reached : tableAt m.frames root path = some pt
  present : (m.frames pt (pmeIdx 1 vaddr)).isPresent = true
  written : LeafWritten m.frames (clearLeaf m pt vaddr).frames root pt path (pmeIdx 1 vaddr) 0
  cut : Cut L (clearLeaf m pt vaddr) m' root path kept

/-- `Unmap` returns. It changes nothing if the address is not mapped. -/
theorem run_unmap (good : WellFormed L m root) (clear : NoHuge m.frames root vaddr) :
    ((unmap ctx root vaddr).run m = .ok () m ∧
        resolve m.frames root (indices vaddr) = none) ∨
      ∃ m' path pt kept, (unmap ctx root vaddr).run m = .ok () m' ∧
        Unmapped L m m' root vaddr path pt kept := by
  have whole : indices vaddr = [] ++ indicesFrom vaddr (3 + 1) := rfl
  have start : Trail m.frames root [] [] := rfl
  have unfolded : (unmap ctx root vaddr).run m = _ := run_get_bind
  rw [unfolded]
  rcases walkDown_cases clear whole rfl start with
    ⟨ends, missing⟩ | ⟨path, parents, pt, found, split, trail, reached, present⟩
  · rw [ends]
    exact Or.inl ⟨rfl, missing⟩
  · rw [found]
    have leaf : path.length = 3 := Nat.succ.inj (length_front (k := 1) split)
    have written : LeafWritten m.frames (clearLeaf m pt vaddr).frames root pt path (pmeIdx 1 vaddr)
        0 := leafWritten good.tree reached leaf
    have owing : Owing L (clearLeaf m pt vaddr) root path := by
      refine ⟨good.valid, good.tree.congr written.tables, ?_, ?_⟩
      · intro table here
        rw [written.tables, reached] at here
        obtain rfl := Option.some.inj here
        have usage := written.usage
        have off : PageMapEntry.isPresent 0 = false := rfl
        rw [present, off, Bool.toNat_true, Bool.toNat_false] at usage
        have exact := good.exact path pt reached
        change L.usage m.ctx pt = _
        omega
      · intro walked table here apart
        rw [written.tables] at here
        have notLeaf : table ≠ pt := fun same =>
          apart (good.tree.injective walked path pt (same ▸ here) reached)
        refine (good.exact walked table here).trans (usage_congr fun idx => ?_).symm
        rw [written.others table notLeaf]
    have trail' : Trail (clearLeaf m pt vaddr).frames root path parents :=
      trail.congr fun walked _ => written.tables walked
    obtain ⟨m', kept, ran, cut⟩ :=
      run_cleanUp owing trail' ((written.tables path).trans reached) 1
    refine Or.inr ⟨m', path, pt, kept, ?_, split, leaf, reached, present, written, cut⟩
    exact (run_bind (run_writeEntry m)).trans ran

end AlkOS.Hal.Mmu
