import AlkOS.Mem.Mmu.Contexts

/-!
# Huge pages under `Map` and `Unmap`

`Translate` and `SetPageFlags` stop at a huge entry. `Map` and `Unmap` do not look
at the `page_size` bit and go on in the frame that the entry maps, so the data in
this frame decides what they do.
-/

namespace AlkOS.Mem.PageTables

open Kernel Hal Hal.Mmu Function

variable {build : Build} {m m' : Machine BuddyPmm} {frames : Frames} {root table : ℕ}
  {vaddr : BitVec 64} {entry : PageMapEntry} {depth level base : ℕ} {front : List (Fin 512)}
  {parents : List (ℕ × Fin 512)}

/-- The machine with other data in a frame. -/
def withData (m : Machine BuddyPmm) (base : ℕ) (words : Fin 512 → PageMapEntry) :
    Machine BuddyPmm :=
  { m with frames := update m.frames base words }

/-- A huge entry maps the address, and its frame is no table of the walk. -/
structure Huge (frames : Frames) (root : ℕ) (vaddr : BitVec 64) (depth : ℕ)
    (entry : PageMapEntry) : Prop where
  covers : resolve frames root (indices vaddr) = some (depth, entry)
  above : depth < 3
  data : ∀ front ∈ (indices vaddr).inits,
    tableAt frames root front ≠ some entry.getNextLevelTable

/-- `Map` fails and neither `Map` nor `Unmap` changes anything, whatever the huge page holds. -/
def Respected (build : Build) (m : Machine BuddyPmm) (root : ℕ) (vaddr : BitVec 64)
    (base : ℕ) : Prop :=
  ∀ words,
    (∀ paddr flags, ∃ error,
      (map (kernelMmuContext build) root vaddr paddr flags).run (withData m base words) =
        .ok (.error error) (withData m base words)) ∧
    (unmap (kernelMmuContext build) root vaddr).run (withData m base words) =
      .ok () (withData m base words)

/-- The entry that leads to a frame. -/
def leading (base : ℕ) : PageMapEntry := PageMapEntry.setNextLevelTable 0 base kDefTableFlags

/-- A walk goes round in a frame whose words all lead back to it. -/
theorem walkDown_leading (bound : base < 2 ^ 40) (here : frames base = fun _ => leading base) :
    ∃ trail, walkDown frames vaddr level base parents = some (trail, base) := by
  have present : ∀ idx, (frames base idx).isPresent = true := fun idx => by
    rw [here]
    exact PageMapEntry.isPresent_setNextLevelTable
  induction level generalizing parents with
  | zero => exact ⟨parents, if_pos (present _)⟩
  | succ level ih =>
    rw [walkDown, if_pos (present _), here, leading,
      PageMapEntry.getNextLevelTable_setNextLevelTable bound]
    exact ih

/-- The walk of `Unmap` does not stop at a huge entry. -/
theorem walkDown_huge {words : Fin 512 → PageMapEntry} (huge : Huge frames root vaddr depth entry)
    (here : tableAt frames root front = some table)
    (split : indices vaddr = front ++ indicesFrom vaddr (level + 1))
    (total : front.length + level = 3)
    (onward : ∀ level parents, ∃ trail, walkDown
      (update frames entry.getNextLevelTable words) vaddr level entry.getNextLevelTable
        parents = some (trail, entry.getNextLevelTable)) :
    ∃ trail, walkDown (update frames entry.getNextLevelTable words) vaddr level table
      parents = some (trail, entry.getNextLevelTable) := by
  have covers := huge.covers
  have above := huge.above
  rw [split, resolve, RadixTree.resolve_append here, Nat.zero_add, indicesFrom] at covers
  induction level generalizing front table parents with
  | zero =>
    rw [Nat.add_zero] at total
    rw [total] at covers
    obtain ⟨_, same⟩ := Option.ite_none_right_eq_some.mp covers
    obtain ⟨rfl, _⟩ := Prod.mk.inj (Option.some.inj same)
    exact absurd above (Nat.lt_irrefl 3)
  | succ level ih =>
    have apart : table ≠ entry.getNextLevelTable := fun equal =>
      huge.data front ((List.mem_inits _ _).mpr ⟨_, split.symm⟩) (equal ▸ here)
    rw [resolve_cons (by omega)] at covers
    rw [walkDown, update_of_ne apart]
    by_cases absent : (frames table (pmeIdx (level + 2) vaddr)).isPresent = false
    · rw [if_pos absent] at covers
      cases covers
    rw [if_neg absent] at covers
    rw [if_pos (eq_true_of_ne_false absent)]
    by_cases big : (frames table (pmeIdx (level + 2) vaddr)).isHuge (4 - front.length)
    · rw [if_pos big] at covers
      obtain ⟨_, same⟩ := Prod.mk.inj (Option.some.inj covers)
      rw [same]
      exact onward level _
    · rw [if_neg big] at covers
      refine ih (tableAt_next here (by omega) (eq_true_of_ne_false absent)
        (eq_false_of_ne_true big)) ?_ ?_ ?_
      · rw [split, List.append_assoc]
        rfl
      · rw [List.length_append, List.length_singleton]
        omega
      · rw [List.length_append]
        exact covers

/-- The cleanup of `Unmap` only clears words. -/
theorem cleanUp_keeps_clear {idx : Fin 512} {value : Unit}
    (returned : (cleanUp (kernelMmuContext build) level table parents).run m =
      .ok value m') (clear : m.frames base idx = 0) : m'.frames base idx = 0 := by
  induction parents generalizing level table m with
  | nil =>
    obtain ⟨_, after, counted, done⟩ := run_bind_eq_ok returned
    obtain ⟨_, _, rfl⟩ := run_zoom_eq_ok counted
    cases done
    exact clear
  | cons parent parents ih =>
    obtain ⟨parent, here⟩ := parent
    obtain ⟨empty, after, counted, rest⟩ := run_bind_eq_ok returned
    obtain ⟨_, _, rfl⟩ := run_zoom_eq_ok counted
    cases empty with
    | false =>
      cases rest
      exact clear
    | true =>
      obtain ⟨_, _, freed, rest⟩ := run_bind_eq_ok rest
      obtain ⟨_, _, rfl⟩ := run_zoom_eq_ok freed
      refine ih rest ?_
      change setEntry m.frames parent here 0 base idx = 0
      rw [setEntry_apply]
      split
      · rfl
      · exact clear

/-- `Map` and `Unmap` respect no huge page at any of its addresses. -/
theorem huge_never_respected (huge : Huge m.frames root vaddr depth entry) :
    ¬ Respected build m root vaddr entry.getNextLevelTable := by
  intro respected
  have bound : entry.getNextLevelTable < 2 ^ 40 := entry.frame.isLt
  have unchanged := (respected fun _ => leading entry.getNextLevelTable).2
  obtain ⟨trail, walk⟩ : ∃ trail, walkDown (withData m entry.getNextLevelTable fun _ =>
      leading entry.getNextLevelTable).frames vaddr 3 root [] =
        some (trail, entry.getNextLevelTable) :=
    walkDown_huge huge (show tableAt m.frames root [] = some root from rfl) rfl rfl
      fun level parents => walkDown_leading bound (update_self ..)
  unfold unmap at unchanged
  rw [run_get_bind] at unchanged
  rw [walk] at unchanged
  have cleaned := (run_bind (run_writeEntry _)).symm.trans unchanged
  have cleared := cleanUp_keeps_clear cleaned setEntry_self
  change update m.frames entry.getNextLevelTable _ entry.getNextLevelTable _ = 0 at cleared
  rw [update_self] at cleared
  have present : PageMapEntry.isPresent 0 = true :=
    cleared ▸ PageMapEntry.isPresent_setNextLevelTable
  exact absurd present (by decide)

/-- The entry of a 2 MiB page at address 0. -/
def lowPage : PageMapEntry := leading 0 ||| (1 : BitVec 64) <<< 7

/-- Low memory is mapped as a 2 MiB page, by tables in the frames 1 to 3. -/
def lowMapped : Machine BuddyPmm where
  frames := fun table idx =>
    if idx = 0 then
      if table = 1 then leading 2
      else if table = 2 then leading 3
      else if table = 3 then lowPage
      else 0
    else 0
  ctx := {
    pmt := ⟨fun table => ⟨if table = 0 then .allocated else .pageTable, 0, none, none, none, 0, 0,
      0⟩, 4, (by decide : 4 * 4096 ≤ 2 ^ 64)⟩
    freelistTable := fun _ => none }

theorem huge_lowMapped : Huge lowMapped.frames 1 0x1000 2 lowPage :=
  ⟨by decide +kernel, by decide, by decide +kernel⟩

/-- The 2 MiB page of low memory. -/
theorem lowMapped_never_respected :
    ¬ Respected .debug lowMapped 1 0x1000 lowPage.getNextLevelTable :=
  huge_never_respected huge_lowMapped

/-- `Map` writes into the mapped data and reports success; the address is still translated by
the huge entry. -/
theorem map_overwrites_data :
    ∃ m', EStateM.run (map (kernelMmuContext .release) 1 0x1000 0x5000 .data) lowMapped =
      .ok (.ok ()) m' ∧
    m'.frames 0 1 ≠ lowMapped.frames 0 1 ∧
    translate m'.frames 1 0x1000 = translate lowMapped.frames 1 0x1000 := by
  refine ⟨_, rfl, by decide +kernel, by decide +kernel⟩

end AlkOS.Mem.PageTables
