import AlkOS.Mem.Bitmap.Alloc

/-!
# No free run is overlooked

The two searches of `Alloc` overlap: a free run that reaches over the last allocation
starts behind the start of the second one. So `Alloc` fails only if there is no run of
free frames.
-/

namespace AlkOS.Mem.BitmapPmm

open Kernel

variable {build : Build} {bmv : BitMapView} {pmm pmm' : BitmapPmm} {numPages pfn : ℕ} {frames : ℕ}

/-- The next search starts inside the map, which has a given number of frames. -/
def Ready (frames : ℕ) (pmm : BitmapPmm) : Prop :=
  pmm.bitmapView.numBits = frames ∧ pmm.lastAllocIdx < frames

/-- The states that `Init` with a map and calls of `Alloc` and `Free` lead to. -/
inductive Reached (build : Build) (bmv : BitMapView) : BitmapPmm → Prop
  | init (pmm pmm' : BitmapPmm) (value : Unit)
      (ran : (init build bmv).run pmm = .ok value pmm') : Reached build bmv pmm'
  | alloc (numPages : ℕ) (pmm pmm' : BitmapPmm) (result : Except MemError ℕ)
      (before : Reached build bmv pmm)
      (ran : (alloc build numPages).run pmm = .ok result pmm') : Reached build bmv pmm'
  | free (page numPages : ℕ) (pmm pmm' : BitmapPmm) (value : Unit)
      (before : Reached build bmv pmm)
      (ran : (free build page numPages).run pmm = .ok value pmm') : Reached build bmv pmm'

theorem ready_setBit (pfn : ℕ) (value : Bool) : Preserves (Ready frames) (setBit build pfn value) :=
  Preserves.get.bind fun _ => Preserves.guardAccess.bind fun _ =>
    .modify fun _ ready => ready

theorem ready_markFree (pfn : ℕ) : Preserves (Ready frames) (markFree build pfn) := by
  cases build with
  | debug =>
    refine Preserves.get.bind fun pmm => .bind ?_ fun allocated =>
      Preserves.assertTrue.bind fun _ => ready_setBit pfn _
    exact (Preserves.guardAccess.bind fun _ => .pure _).bind fun _ => .pure _
  | release => exact ready_setBit pfn _

theorem ready_freeLoop (count pfn : ℕ) : Preserves (Ready frames) (freeLoop build count pfn) := by
  induction count generalizing pfn with
  | zero => exact .pure _
  | succ count ih => exact (ready_markFree pfn).bind fun _ => ih (pfn + 1)

theorem ready_free (page numPages : ℕ) : Preserves (Ready frames) (free build page numPages) :=
  .bind (Preserves.assertTrue.bind fun _ => .pure _) fun pfn => ready_freeLoop numPages pfn

/-- `Alloc` leaves the allocator ready. -/
theorem ready_alloc (numPages : ℕ) : Preserves (Ready frames) (alloc build numPages) := by
  intro pmm result pmm' ready ran
  obtain ⟨rfl, inside⟩ := ready
  rcases Nat.eq_zero_or_pos numPages with rfl | positive
  · cases ran
    exact ⟨rfl, inside⟩
  · rcases run_alloc inside positive build with ⟨pfn, found, below, _⟩ | ⟨failed, _⟩
    · cases found.symm.trans ran
      exact ⟨rfl, by change pfn < _; omega⟩
    · cases failed.symm.trans ran
      exact ⟨rfl, inside⟩

theorem ready_of_reached (nonempty : 0 < bmv.numBits) (word : bmv.numBits < 2 ^ 64)
    (reached : Reached build bmv pmm) : pmm.Ready bmv.numBits := by
  induction reached with
  | init pmm pmm' value ran =>
    rw [init_eq_ok ran]
    exact ⟨rfl, by simp only; omega⟩
  | alloc numPages pmm pmm' result _ ran ih => exact ready_alloc numPages pmm result pmm' ih ran
  | free page numPages pmm pmm' value _ ran ih =>
    exact ready_free page numPages pmm value pmm' ih ran

/-- There are `numPages` free frames in a row. -/
def HasFreeRun (pmm : BitmapPmm) (numPages : ℕ) : Prop :=
  ∃ pfn, pfn + numPages ≤ pmm.bitmapView.numBits ∧ pmm.FreeRun pfn numPages

/-- A free run that is not below the last allocation is seen by the second search. -/
theorem secondSearchStart_le_of_lt {lastAllocIdx frames : ℕ} (small : frames < 2 ^ 64 - 1)
    (inside : lastAllocIdx < frames) (above : lastAllocIdx < pfn + numPages)
    (below : pfn + numPages ≤ frames) : secondSearchStart lastAllocIdx numPages ≤ pfn := by
  unfold secondSearchStart
  rw [Nat.mod_eq_of_lt (by omega)]
  by_cases far : numPages + 1 < lastAllocIdx
  · rw [if_pos far]
    omega
  · rw [if_neg far]
    exact Nat.zero_le _

/-- If both searches find nothing, there is nothing. -/
theorem not_hasFreeRun (small : frames < 2 ^ 64 - 1) (ready : pmm.Ready frames)
    (first : ∀ pfn, pfn + numPages ≤ pmm.lastAllocIdx → ¬pmm.FreeRun pfn numPages)
    (second : ∀ pfn, secondSearchStart pmm.lastAllocIdx numPages ≤ pfn →
      pfn + numPages ≤ pmm.bitmapView.numBits → ¬pmm.FreeRun pfn numPages) :
    ¬pmm.HasFreeRun numPages := by
  obtain ⟨rfl, inside⟩ := ready
  rintro ⟨pfn, below, run⟩
  by_cases low : pfn + numPages ≤ pmm.lastAllocIdx
  · exact first pfn low run
  · exact second pfn (secondSearchStart_le_of_lt small inside (by omega) below) below run

/-- `Alloc` returns the address of free frames and takes exactly them. -/
def Takes (build : Build) (pmm : BitmapPmm) (numPages : ℕ) : Prop :=
  ∃ pfn pmm', (alloc build numPages).run pmm = .ok (.ok (pageFrameAddr pfn)) pmm' ∧
    pfn + numPages ≤ pmm.bitmapView.numBits ∧ pmm.FreeRun pfn numPages ∧
    ∀ other, pmm'.FrameFree other ↔ pmm.FrameFree other ∧ ¬(pfn ≤ other ∧ other < pfn + numPages)

/-- `Alloc` takes a free run if there is one, and otherwise says so. -/
theorem alloc_finds_run (nonempty : 0 < bmv.numBits) (small : bmv.numBits < 2 ^ 64 - 1)
    (reached : Reached build bmv pmm) (positive : 0 < numPages) :
    pmm.HasFreeRun numPages ∧ Takes build pmm numPages ∨
      ¬pmm.HasFreeRun numPages ∧
        (alloc build numPages).run pmm = .ok (.error .outOfMemory) pmm := by
  have ready := ready_of_reached nonempty (by omega) reached
  have inside : pmm.lastAllocIdx < pmm.bitmapView.numBits := by
    rw [ready.1]
    exact ready.2
  rcases run_alloc inside positive build with ⟨pfn, ran, below, run⟩ | ⟨ran, first, second⟩
  · exact .inl ⟨⟨pfn, below, run⟩, pfn, _, ran, below, run, fun other => frameFree_marked_iff⟩
  · exact .inr ⟨not_hasFreeRun small ready first second, ran⟩

/-- Two of four frames, where only a run over the last allocation is left. -/
theorem alloc_finds_run_fourFrames :
    Reached .debug ⟨fun pfn => pfn = 1, 4⟩ ⟨⟨fun pfn => pfn = 1, 4⟩, 3⟩ ∧
      Takes .debug ⟨⟨fun pfn => pfn = 1, 4⟩, 3⟩ 2 := by
  have reached : Reached .debug ⟨fun pfn => pfn = 1, 4⟩ ⟨⟨fun pfn => pfn = 1, 4⟩, 3⟩ :=
    .init ⟨⟨fun _ => false, 0⟩, 0⟩ _ () rfl
  refine ⟨reached, ?_⟩
  rcases alloc_finds_run (by decide) (by decide) reached (by decide : 0 < 2) with
    ⟨_, takes⟩ | ⟨none, _⟩
  · exact takes
  · refine (none ⟨2, by decide, ?_⟩).elim
    unfold FreeRun
    decide

end AlkOS.Mem.BitmapPmm
