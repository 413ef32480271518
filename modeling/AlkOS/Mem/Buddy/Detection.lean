import AlkOS.Mem.Buddy.Correctness

/-!
# Which invalid frees the buddy allocator detects

`Free` looks at the tag of one frame. `MergeBlock` retags the heads of the free blocks
it absorbs, but not the freed page itself: a page that merges into a block starting
below it keeps the tag `Allocated`.
-/

namespace AlkOS.Mem.BuddyPmm

open Kernel DyadicBlocks Freelists

variable {build : Build} {s s' : BuddyPmm} {x y : Held} {pool : Set ℕ} {lists : ℕ → List ℕ}
  {op : Op} {retiredBy after : ℕ → Option Op} {bPmm : BitmapPmm} {pmt : PageMetaTable}
  {pageLimit pfn : ℕ}

/-- The call that last ended the frame's time as a head was not its own `Free`. -/
def RetiredByOther (retiredBy : ℕ → Option Op) (pfn : ℕ) : Prop :=
  ∃ op, retiredBy pfn = some op ∧ op ≠ .free pfn

/-- The tag of a frame that heads no block tells how it was retired. -/
def Tags (x : Held) (retiredBy : ℕ → Option Op) : Prop :=
  ∀ pfn < x.pmm.pmt.totalPages, ¬ x.Heads pfn →
    ((x.pmm.metaAt pfn).type = .dummy ∧ RetiredByOther retiredBy pfn) ∨
      ((x.pmm.metaAt pfn).type = .allocated ∧ ¬ RetiredByOther retiredBy pfn)

/-- A frame that was no head keeps its tag and its record. -/
theorem Tags.of_not_heads (tags : Tags x retiredBy) (bound : pfn < x.pmm.pmt.totalPages)
    (before : ¬ x.Heads pfn) (same : (y.pmm.metaAt pfn).type = (x.pmm.metaAt pfn).type) :
    ((y.pmm.metaAt pfn).type = .dummy ∧ RetiredByOther (retire op x y retiredBy) pfn) ∨
      ((y.pmm.metaAt pfn).type = .allocated ∧ ¬ RetiredByOther (retire op x y retiredBy) pfn) := by
  unfold RetiredByOther
  rw [retire, if_neg fun ended => before ended.1, same]
  exact tags pfn bound before

/-- One call keeps the meaning of the tags. -/
theorem Tags.step (tags : Tags x retiredBy) (consistent : Consistent x pool lists)
    (step : Step build op x y) : Tags y (retire op x y retiredBy) := by
  obtain ⟨_, _, total⟩ := consistent.step step
  intro pfn bound gone
  rw [total] at bound
  rcases consistent.step_cases step with ⟨order, head, lists', rfl, live, taken⟩ | ⟨_, _, rfl⟩ |
    ⟨b, member, lists', rfl, live, after, freed⟩
  · -- `Alloc` ends no frame's time as a head.
    have consistent' : Consistent y pool lists' := by
      obtain ⟨pmm, _⟩ := y
      cases live
      exact consistent.taken taken
    rw [consistent'.heads_iff, live] at gone
    have notHead : pfn ≠ head := fun same => gone (Or.inr ⟨order, Or.inl (same ▸ rfl)⟩)
    refine tags.of_not_heads bound ?_ (taken.kept pfn (fun listed => gone (Or.inl listed)) notHead)
    rw [consistent.heads_iff]
    rintro (listed | ⟨k, held⟩)
    · rcases taken.listed listed with same | listed'
      · exact notHead same
      · exact gone (Or.inl listed')
    · exact gone (Or.inr ⟨k, Or.inr held⟩)
  · exact tags.of_not_heads bound gone rfl
  · have unlisted : pfn ∉ members lists' := fun listed => gone (after.heads_iff.mpr (Or.inl listed))
    by_cases before : x.Heads pfn
    · unfold RetiredByOther
      rw [retire, if_pos ⟨before, gone⟩]
      rw [consistent.heads_iff] at before
      rcases before with listed | ⟨k, held⟩
      · refine Or.inl ⟨freed.absorbed pfn listed unlisted, _, rfl, ?_⟩
        intro same
        injection same with same
        exact consistent.books.live_fresh member b.base_mem_pages (same ▸ listed)
      · -- The only live head that a `Free` retires is the freed page.
        have same : (⟨pfn, k⟩ : Block) = b := by
          by_contra other
          apply gone
          rw [after.heads_iff, live]
          exact Or.inr ⟨k, held, other⟩
        cases same
        refine Or.inr ⟨?_, ?_⟩
        · rw [freed.kept pfn unlisted (consistent.books.live_fresh held (Block.base_mem_pages _))]
          exact consistent.tagged _ held
        · intro ⟨_, recorded, other⟩
          exact other (Option.some.inj recorded).symm
    · refine tags.of_not_heads bound before (freed.kept pfn unlisted ?_)
      exact fun listed => before (consistent.heads_iff.mpr (Or.inl listed))

/-- A whole history keeps the meaning of the tags. -/
theorem Tags.history (tags : Tags x retiredBy) (consistent : Consistent x pool lists)
    (history : History build x retiredBy y after) :
    Tags y after ∧ ∃ lists', Consistent y pool lists' ∧
      y.pmm.pmt.totalPages = x.pmm.pmt.totalPages := by
  induction history with
  | refl => exact ⟨tags, lists, consistent, rfl⟩
  | step _ step ih =>
    obtain ⟨tags, _, consistent, total⟩ := ih
    obtain ⟨lists', consistent', kept⟩ := consistent.step step
    exact ⟨tags.step consistent step, lists', consistent', kept.trans total⟩

/-- The state of a returned `Init`, with the record of the pages it retired. -/
structure Booted (build : Build) (bPmm : BitmapPmm) (pmt : PageMetaTable) (pageLimit : ℕ)
    (s s' : BuddyPmm) (retiredBy : ℕ → Option Op) : Prop where
  ran : (init build bPmm pmt pageLimit).run s = .ok () s'
  history : History build (booting s pmt (handedOver bPmm pageLimit pmt.totalPages))
    (fun _ => none) ⟨s', ∅⟩ retiredBy

/-- Every returned `Init` has such a record. -/
theorem exists_booted (ran : (init build bPmm pmt pageLimit).run s = .ok () s') :
    ∃ retiredBy, Booted build bPmm pmt pageLimit s s' retiredBy := by
  obtain ⟨retiredBy, history⟩ := init_history ran
  exact ⟨retiredBy, ran, history⟩

/-- Tags keep their meaning along every history. -/
theorem Booted.tags (booted : Booted build bPmm pmt pageLimit s s' retiredBy)
    (history : History build ⟨s', ∅⟩ retiredBy x after) :
    Tags x after ∧ ∃ lists, Consistent x (handedOver bPmm pageLimit pmt.totalPages) lists ∧
      x.pmm.pmt.totalPages = pmt.totalPages := by
  refine Tags.history ?_ booting_handedOver_consistent (booted.history.trans history)
  intro pfn bound _
  refine Or.inr ⟨?_, ?_⟩
  · rw [booting_metaAt pmt bound]
    rfl
  · intro ⟨_, recorded, _⟩
    cases recorded

/-- The panic that rejects a free. -/
def doubleFree : Panic := .assertion doubleFreeMessage

section Avoids

variable {page : ℕ}

@[grind ←]
theorem avoids_load {panic : Panic} : Avoids panic (load page) :=
  Avoids.bind .get (fun _ => .pure _)

@[grind ←]
theorem avoids_asBuddy : Avoids doubleFree (asBuddy build page) :=
  avoids_load.bind fun _ => (Avoids.assertTrue (by decide)).bind fun _ => .pure _

@[grind ←]
theorem avoids_getPageMeta : Avoids doubleFree (getPageMeta build page) :=
  Avoids.get.bind fun _ => (Avoids.guardAccess (by decide) (by decide)).bind fun _ => .pure _

@[grind ←]
theorem avoids_getPageFrameNumber : Avoids doubleFree (getPageFrameNumber build page) :=
  Avoids.get.bind fun _ => (Avoids.assertTrue (by decide)).bind fun _ => .pure _

@[grind ←]
theorem avoids_store {panic : Panic} {value : PageMeta} : Avoids panic (store page value) :=
  .modify _

theorem avoids_listPush : Avoids doubleFree (listPush build page) := by
  refine avoids_load.bind fun _ => avoids_asBuddy.bind fun _ => avoids_load.bind fun _ =>
    Avoids.get.bind fun _ => avoids_store.bind fun _ => Avoids.get.bind fun table => ?_
  cases table.freelistTable _ <;> grind

@[grind ←]
theorem avoids_skipBackward : Avoids doubleFree (skipBackward build page) := by
  unfold skipBackward
  grind

@[grind ←]
theorem avoids_skipForward : Avoids doubleFree (skipForward build page) := by
  unfold skipForward
  grind

@[grind ←]
theorem avoids_listRemove : Avoids doubleFree (listRemove build page) := by
  refine avoids_asBuddy.bind fun _ => avoids_skipBackward.bind fun _ =>
    avoids_skipForward.bind fun _ => avoids_load.bind fun _ => Avoids.get.bind fun _ => ?_
  grind

@[grind ←]
theorem avoids_mergeLoop (room pfn order : ℕ) :
    Avoids doubleFree (mergeLoop build room pfn order) := by
  induction room generalizing pfn order with
  | zero => exact .pure _
  | succ room ih =>
    unfold mergeLoop
    grind

theorem avoids_mergeBlock : Avoids doubleFree (mergeBlock build page) := by
  unfold mergeBlock
  grind

end Avoids

/-- Inside the table, `Free` rejects exactly the frames not tagged `Allocated`. -/
theorem free_rejects_iff_type (bound : pfn < s.pmt.totalPages) :
    (free build (pageFrameAddr pfn)).run s = .error doubleFree s ↔
      (s.metaAt pfn).type ≠ .allocated := by
  unfold free
  rw [run_bind (run_pageFrameNumber_pageFrameAddr bound),
    run_bind (run_getPageMeta bound), run_bind run_load]
  by_cases tagged : (s.metaAt pfn).type = .allocated
  · rw [run_bind (run_rAssertTrue tagged)]
    refine ⟨fun stopped => ?_, fun other => (other tagged).elim⟩
    exact ((avoids_mergeBlock.bind fun _ => avoids_load.bind fun _ => avoids_load.bind fun _ =>
      avoids_store.bind fun _ => avoids_listPush) s s stopped).elim
  · exact ⟨fun _ => tagged, fun _ =>
      run_bind_of_error (run_rAssertTrue_of_not tagged)⟩

/-- Outside the table, `Free` fails another check. -/
theorem free_outside (representable : pfn * kPageSizeBytes < 2 ^ 64)
    (outside : ¬ pfn < s.pmt.totalPages) :
    (free build (pageFrameAddr pfn)).run s ≠ .error doubleFree s := by
  have number : (pageFrameNumber build (pageFrameAddr pfn)).run s = .ok pfn s := by
    unfold pageFrameAddr
    rw [Nat.mod_eq_of_lt representable]
    exact run_pageFrameNumber_mul
  obtain ⟨panic, failed⟩ := run_getPageMeta_of_not outside
  unfold free
  rw [run_bind number, run_bind_of_error failed]
  intro stopped
  cases stopped
  exact avoids_getPageMeta s s failed

/-- `Free` rejects a frame that heads no live block exactly when it lies in the table and heads a
free block or was retired by another call than its own `Free`. -/
theorem free_rejects_iff (booted : Booted build bPmm pmt pageLimit s s' retiredBy)
    (history : History build ⟨s', ∅⟩ retiredBy x after)
    (notLive : ∀ order, (⟨pfn, order⟩ : Block) ∉ x.live)
    (representable : pfn * kPageSizeBytes < 2 ^ 64) :
    (free build (pageFrameAddr pfn)).run x.pmm = .error doubleFree x.pmm ↔
      pfn < pmt.totalPages ∧ ((∃ order, (⟨pfn, order⟩ : Block) ∈ freeBlocks x.pmm) ∨
        RetiredByOther after pfn) := by
  obtain ⟨tags, lists, consistent, total⟩ := booted.tags history
  by_cases bound : pfn < x.pmm.pmt.totalPages
  · rw [free_rejects_iff_type bound, ← total, and_iff_right bound]
    by_cases free : ∃ order, (⟨pfn, order⟩ : Block) ∈ freeBlocks x.pmm
    · have tagged := (consistent.repInv.tagged pfn bound).mpr free
      refine iff_of_true ?_ (Or.inl free)
      rw [tagged]
      decide
    · have gone : ¬ x.Heads pfn := by
        rintro (head | ⟨order, held⟩)
        · exact free head
        · exact notLive order held
      rw [or_iff_right free]
      rcases tags pfn bound gone with ⟨tagged, retired⟩ | ⟨tagged, kept⟩
      · rw [tagged]
        exact iff_of_true (by decide) retired
      · rw [tagged]
        exact iff_of_false (fun other => other rfl) kept
  · refine iff_of_false (free_outside representable bound) ?_
    intro inside
    exact bound (total ▸ inside.1)

/-- Four frames make one free block of order two, whose head is rejected. -/
theorem free_rejects_head_of_four_frames :
    ∃ s retiredBy, Booted .debug (clearBitmap 4) blank.pmt 4096 blank s retiredBy ∧
      ((free .debug (pageFrameAddr 0)).run s = .error doubleFree s ↔
        0 < blank.pmt.totalPages ∧ ((∃ order, (⟨0, order⟩ : Block) ∈ freeBlocks s) ∨
          RetiredByOther retiredBy 0)) := by
  obtain ⟨s, ran⟩ := init_returns blank
    (by decide : blank.pmt.totalPages ≤ (clearBitmap 4).bitmapView.numBits)
  obtain ⟨retiredBy, booted⟩ := exists_booted ran
  exact ⟨s, retiredBy, booted, free_rejects_iff booted .refl (fun _ held => held) (by decide)⟩

/-- `Init` frees page 1 into a larger block and leaves its tag `Allocated`: freed once more, it is
handed out twice. -/
theorem free_accepts_merged_page :
    ∃ s after final, (init .debug (clearBitmap 4) blank.pmt 4096).run blank = .ok () s ∧
      Run .debug ⟨s, ∅⟩ ⟨s, ∅⟩ ∧
      (free .debug (pageFrameAddr 1)).run s = .ok () after ∧
      EStateM.run (do
        let small ← alloc .debug 0
        let large ← alloc .debug 2
        return (small, large)) after =
          .ok (.ok (pageFrameAddr 1), .ok (pageFrameAddr 0)) final := by
  have evaluated : outcome (EStateM.run (do
      init .debug (clearBitmap 4) blank.pmt 4096
      free .debug (pageFrameAddr 1)
      let small ← alloc .debug 0
      let large ← alloc .debug 2
      return (small, large)) blank) = some (.ok (pageFrameAddr 1), .ok (pageFrameAddr 0)) := by
    decide +kernel
  obtain ⟨final, ran⟩ := eq_ok_of_outcome evaluated
  obtain ⟨_, s, booted, rest⟩ := run_bind_eq_ok ran
  obtain ⟨_, after, freed, rest⟩ := run_bind_eq_ok rest
  exact ⟨s, after, final, booted, .refl, freed, rest⟩

end AlkOS.Mem.BuddyPmm
