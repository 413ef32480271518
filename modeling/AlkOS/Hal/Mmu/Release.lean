import AlkOS.Hal.Mmu.Refinement

/-!
# Which tables are released

The cleanup of `Unmap` frees the tables on the walk that lost their last entry,
and no others. `SetPageFlags` rewrites a leaf that stays present, so it frees and
counts nothing.
-/

namespace AlkOS.Hal.Mmu

open RadixTree

variable {κ : Type} {ctx : MmuContext κ} {L : Lawful ctx} {m m' : Machine κ}
  {root table pt kept : ℕ}
  {vaddr v : BitVec 64} {flags : PageFlags} {path walked : List (Fin 512)} {idx : Fin 512}

/-- The machine after the flags of a leaf were set. -/
def reflag (m : Machine κ) (pt : ℕ) (vaddr : BitVec 64) (flags : PageFlags) : Machine κ :=
  { m with frames := setEntry m.frames pt (pmeIdx 1 vaddr) (PageMapEntry.setFrameAddress
      (m.frames pt (pmeIdx 1 vaddr)).getFrameAddress (toArchFlags flags)) }

/-- `SetPageFlags` fails and changes nothing, or rewrites a present leaf. -/
theorem run_setPageFlags (root : ℕ) (vaddr : BitVec 64) (flags : PageFlags) (m : Machine κ) :
    (∃ error, (setPageFlags root vaddr flags).run m = .ok (.error error) m) ∨
      ∃ path pt, (setPageFlags root vaddr flags).run m =
          .ok (.ok ()) (reflag m pt vaddr flags) ∧ path.length = 3 ∧
        tableAt m.frames root path = some pt ∧
        (m.frames pt (pmeIdx 1 vaddr)).isPresent = true := by
  have on : ∀ {entry : PageMapEntry}, ¬ (!entry.isPresent) = true → entry.isPresent = true := by
    intro entry shown
    rw [Bool.not_eq_true', Bool.not_eq_false] at shown
    exact shown
  unfold setPageFlags
  rw [Kernel.run_get_bind]
  dsimp only
  split_ifs with pml4e pdpte large pde big pte
  case neg =>
    have start : tableAt m.frames root [] = some root := rfl
    have pdpt := tableAt_next start (by decide) (on pml4e) rfl
    have pd := tableAt_next pdpt (by simp) (on pdpte) (eq_false_of_ne_true large)
    have pt := tableAt_next pd (by simp) (on pde) (eq_false_of_ne_true big)
    exact Or.inr ⟨_, _, rfl, rfl, pt, on pte⟩
  all_goals exact Or.inl ⟨_, rfl⟩

/-- Setting flags with `Present` keeps the tree well formed. -/
theorem WellFormed.reflag (good : WellFormed L m root) (leaf : path.length = 3)
    (reached : tableAt m.frames root path = some pt)
    (occupied : (m.frames pt (pmeIdx 1 vaddr)).isPresent = true) (present : flags.present = true) :
    WellFormed L (reflag m pt vaddr flags) root := by
  have written : LeafWritten m.frames (Mmu.reflag m pt vaddr flags).frames root pt path
      (pmeIdx 1 vaddr) _ := leafWritten good.tree reached leaf
  apply LeafWritten.wellFormed good written good.valid rfl
  · rw [occupied, PageMapEntry.isPresent_setFrameAddress, present]
    rfl
  · exact fun _ _ => rfl

namespace Unmapped

variable (unmapped : Unmapped L m m' root vaddr path pt kept)
include unmapped

theorem path_prefix : path <+: indices vaddr := by
  rw [unmapped.split]
  exact List.prefix_append path _

section

variable (reached : tableAt m.frames root walked = some table)
include reached

/-- The freed tables are those on the walk below the last one that was kept. -/
theorem not_mem_tables_iff (good : WellFormed L m root) :
    table ∉ L.tables m'.ctx ↔ walked <+: path ∧ kept < walked.length := by
  have used : table ∈ L.tables m.ctx := good.tree.allocated walked table reached
  rw [unmapped.cut.tables]
  constructor
  · intro freed
    by_contra apart
    apply freed
    refine ⟨used, ?_⟩
    intro other inside deep there
    rw [unmapped.written.tables] at there
    rw [good.tree.injective other walked table there reached] at inside deep
    exact apart ⟨inside, deep⟩
  · intro ⟨inside, deep⟩ ⟨_, notCut⟩
    exact notCut walked inside deep ((unmapped.written.tables walked).trans reached)

/-- The entries on the walk from the last kept table on are cleared. -/
theorem cleared (keeps : KeepsFrames ctx) (inside : walked ++ [idx] <+: indices vaddr)
    (deep : kept ≤ walked.length) :
    m'.frames table idx = 0 := by
  have reached' := (unmapped.written.tables walked).trans reached
  rw [unmapped.split] at inside
  rcases List.prefix_concat_iff.mp inside with ends | inside
  · obtain ⟨rfl, last⟩ := List.append_inj' ends rfl
    cases last
    rcases unmapped.cut.words keeps table (pmeIdx 1 vaddr) with same | ⟨other, on, deep', there⟩
    · obtain rfl := Option.some.inj (unmapped.reached.symm.trans reached)
      rw [same]
      exact setEntry_self
    · exact unmapped.cut.cleared keeps other _ table on deep' there
  · exact unmapped.cut.cleared keeps walked idx table inside deep reached'

section

variable (keeps : KeepsFrames ctx) (good : WellFormed L m root)
include keeps good

/-- No other entry of a table in the tree changes. -/
theorem entry_eq (apart : ¬ (walked ++ [idx] <+: indices vaddr ∧ kept ≤ walked.length)) :
    m'.frames table idx = m.frames table idx := by
  rcases unmapped.cut.words keeps table idx with same | ⟨other, on, deep, there⟩
  · rw [same]
    apply setEntry_of_ne
    intro both
    cases both
    apply apart
    rw [good.tree.injective walked path table reached unmapped.reached, unmapped.split]
    exact ⟨List.prefix_rfl, unmapped.cut.bound⟩
  · rw [unmapped.written.tables] at there
    rw [good.tree.injective other walked table there reached] at on deep
    exact absurd ⟨on.trans unmapped.path_prefix, deep⟩ apart

omit keeps good in
/-- The entries on the walk were present. -/
theorem present_of_prefix (inside : walked ++ [idx] <+: indices vaddr) :
    (m.frames table idx).isPresent = true := by
  rw [unmapped.split] at inside
  rcases List.prefix_concat_iff.mp inside with ends | ⟨rest, whole⟩
  · obtain ⟨rfl, last⟩ := List.append_inj' ends rfl
    cases last
    rw [← Option.some.inj (unmapped.reached.symm.trans reached)]
    exact unmapped.present
  · have leads := unmapped.reached
    rw [← whole] at leads
    obtain ⟨next, child, _⟩ := tableAt_prefix leads
    rw [← tableAt, tableAt_concat reached] at child
    by_contra absent
    rw [pageFormat.child_of_absent _ _ (eq_false_of_ne_true absent)] at child
    cases child

/-- Each table from the last kept one on loses one entry. -/
theorem presentEntries_of_deep (inside : walked <+: path) (deep : kept ≤ walked.length) :
    presentEntries m'.frames table + 1 = presentEntries m.frames table := by
  obtain ⟨idx, next⟩ : ∃ idx, walked ++ [idx] <+: indices vaddr := by
    obtain ⟨rest, whole⟩ := inside
    rw [unmapped.split, ← whole]
    cases rest with
    | nil => exact ⟨_, by rw [List.append_nil]⟩
    | cons idx rest => exact ⟨idx, by simp⟩
  have count : presentEntries m'.frames table + (m.frames table idx).isPresent.toNat =
      presentEntries m.frames table + (m'.frames table idx).isPresent.toNat := by
    apply usage_write
    intro entry apart
    apply unmapped.entry_eq reached keeps good
    intro ⟨also, _⟩
    have same := (List.prefix_of_prefix_length_le also next (by simp)).eq_of_length (by simp)
    exact apart (List.singleton_inj.mp (List.append_cancel_left same))
  have off : PageMapEntry.isPresent 0 = false := rfl
  rw [unmapped.present_of_prefix reached next, unmapped.cleared reached keeps next deep, off,
    Bool.toNat_true, Bool.toNat_false, Nat.add_zero] at count
  omega

/-- All other tables keep their entries. -/
theorem presentEntries_of_not_deep (apart : ¬ (walked <+: path ∧ kept ≤ walked.length)) :
    presentEntries m'.frames table = presentEntries m.frames table := by
  apply usage_congr
  intro idx
  apply unmapped.entry_eq reached keeps good
  intro ⟨inside, deep⟩
  apply apart
  refine ⟨?_, deep⟩
  rw [unmapped.split] at inside
  exact List.prefix_of_prefix_length_le ((List.prefix_append walked [idx]).trans inside)
    (List.prefix_append path _) (by
      have bound := inside.length_le
      simp only [List.length_append, List.length_singleton] at bound
      omega)

end

end

/-- Nothing is found below a freed table. -/
theorem resolve_of_freed (keeps : KeepsFrames ctx) (inside : walked <+: path)
    (deep : kept < walked.length) (below : walked <+: indices v) :
    resolve m'.frames root (indices v) = none := by
  -- The entry of the last kept table on the way to `walked`.
  obtain ⟨front, idx, rest, rfl, length⟩ :
      ∃ front idx rest, walked = front ++ idx :: rest ∧ front.length = kept := by
    refine ⟨walked.take kept, walked.get ⟨kept, deep⟩, walked.drop (kept + 1), ?_, ?_⟩
    · simp
    · rw [List.length_take]
      omega
  have onPath : front ++ [idx] <+: path :=
    List.IsPrefix.trans ⟨rest, by simp⟩ inside
  obtain ⟨table, reached⟩ : ∃ table, tableAt m.frames root front = some table := by
    obtain ⟨suffix, whole⟩ := (List.prefix_append front [idx]).trans onPath
    have leads := unmapped.reached
    rw [← whole] at leads
    obtain ⟨table, reached, _⟩ := tableAt_prefix leads
    exact ⟨table, reached⟩
  have kept' : tableAt m'.frames root front = some table := by
    rw [unmapped.cut.walks, if_neg fun both => absurd both.1 length.not_gt]
    exact (unmapped.written.tables front).trans reached
  have cleared := unmapped.cleared reached keeps (onPath.trans unmapped.path_prefix) length.ge
  obtain ⟨suffix, whole⟩ := below
  rw [← whole, List.append_assoc, resolve, resolve_append kept']
  refine (walk_absent ?_ (rest ++ suffix)).2
  rw [cleared]
  rfl

end Unmapped

/-- `Unmap` freed the tables below the root that lost their last entry. -/
structure Release (L : Lawful ctx) (m m' : Machine κ) (root : ℕ) (vaddr : BitVec 64)
    (walked : List (Fin 512)) (table : ℕ) : Prop where
  freed_iff : table ∉ L.tables m'.ctx ↔
    presentEntries m.frames table ≠ 0 ∧ presentEntries m'.frames table = 0
  unlinked : table ∉ L.tables m'.ctx → ∀ front idx parent, walked = front ++ [idx] →
    tableAt m.frames root front = some parent → m'.frames parent idx = 0
  silent : table ∉ L.tables m'.ctx → ∀ v, walked <+: indices v → ¬ SamePage v vaddr →
    translate m.frames root v = .error .notFound

/-- What `Unmap` does to each table below the root. -/
theorem Unmapped.release (unmapped : Unmapped L m m' root vaddr path pt kept)
    (keeps : KeepsFrames ctx) (good : WellFormed L m root) (notRoot : walked ≠ [])
    (reached : tableAt m.frames root walked = some table) :
    Release L m m' root vaddr walked table := by
  have freed_iff := unmapped.not_mem_tables_iff reached good
  refine ⟨?_, ?_, ?_⟩
  · rw [freed_iff]
    by_cases deep : walked <+: path ∧ kept ≤ walked.length
    · have count := unmapped.presentEntries_of_deep reached keeps good deep.1 deep.2
      have reached' := (unmapped.written.tables walked).trans reached
      rcases deep.2.lt_or_eq with below | last
      · have one := unmapped.cut.counts walked table deep.1 below reached'
        have exact : L.usage m.ctx table = _ := good.exact walked table reached
        have same : L.usage (clearLeaf m pt vaddr).ctx table = L.usage m.ctx table := rfl
        refine ⟨fun _ => ⟨?_, ?_⟩, fun _ => ⟨deep.1, below⟩⟩
        · omega
        · omega
      · have positive : 0 < kept := by
          rw [last]
          exact List.length_pos_of_ne_nil notRoot
        have some := unmapped.cut.survivor positive walked table deep.1 last.symm reached'
        refine ⟨fun both => absurd both.2 last.not_lt, fun both => ?_⟩
        exact absurd both.2 some.ne'
    · have same := unmapped.presentEntries_of_not_deep reached keeps good deep
      refine ⟨fun both => absurd ⟨both.1, both.2.le⟩ deep, fun both => ?_⟩
      exact absurd (same.symm.trans both.2) both.1
  · intro freed front idx parent split above
    obtain ⟨inside, below⟩ := freed_iff.mp freed
    rw [split] at inside below
    rw [List.length_append, List.length_singleton] at below
    exact unmapped.cleared above keeps (inside.trans unmapped.path_prefix) (by omega)
  · intro freed v under apart
    obtain ⟨inside, below⟩ := freed_iff.mp freed
    rw [← unmapped.translate_elsewhere apart, translate_eq,
      unmapped.resolve_of_freed keeps inside below under]

end AlkOS.Hal.Mmu
