import AlkOS.Mem.Bitmap

/-!
# What the bitmap allocator finds and marks

`FindContiguousBlock` walks a range downwards and counts free frames. It finds a
run of free frames exactly when the range has one; `Alloc` then marks the run it
found, which was free.
-/

namespace AlkOS.Mem.BitmapPmm

open Kernel

variable {build : Build} {pmm : BitmapPmm} {pfn numPages : ℕ} {current count : ℕ} {value : Bool}

/-- All `count` frames from `pfn` on are free. -/
def FreeRun (pmm : BitmapPmm) (pfn count : ℕ) : Prop := ∀ i < count, pmm.FrameFree (pfn + i)

/-- The number of free frames counted after looking at one more. -/
def recount (pmm : BitmapPmm) (current count : ℕ) : ℕ :=
  if pmm.FrameFree current then count + 1 else 0

theorem recount_le : pmm.recount current count ≤ count + 1 := by
  unfold recount
  split <;> omega

theorem freeRun_recount (counted : pmm.FreeRun (current + 1) count) :
    pmm.FreeRun current (pmm.recount current count) := by
  intro i below
  unfold recount at below
  by_cases free : pmm.FrameFree current
  · rw [if_pos free] at below
    cases i with
    | zero => exact free
    | succ i =>
      have later := counted i (by omega)
      rwa [Nat.add_right_comm] at later
  · rw [if_neg free] at below
    omega

/-- A free run that ends below the counted frames starts below `current`. -/
theorem freeRun_narrow (short : count < numPages) (short' : pmm.recount current count < numPages)
    (run : pmm.FreeRun pfn numPages) (below : pfn + numPages ≤ current + 1 + count) :
    pfn < current ∧ pfn + numPages ≤ current + pmm.recount current count := by
  unfold recount at short' ⊢
  by_cases free : pmm.FrameFree current
  · rw [if_pos free] at short' ⊢
    omega
  · by_cases covers : pfn ≤ current ∧ current < pfn + numPages
    · refine (free ?_).elim
      have here := run (current - pfn) (by omega)
      rwa [Nat.add_sub_cancel' covers.1] at here
    · omega

/-- One round of the loop. -/
theorem run_findLoop_round (remaining : ℕ)
    (inside : current < pmm.bitmapView.numBits) :
    (findLoop build numPages remaining current count).run pmm =
      if pmm.recount current count = numPages then .ok (.ok current) pmm
      else match remaining with
        | 0 => .ok (.error .outOfMemory) pmm
        | remaining + 1 => EStateM.run
            (findLoop build numPages remaining (current - 1) (pmm.recount current count)) pmm := by
  rw [findLoop.eq_def, run_get_bind,
    run_bind (run_isFree inside)]
  simp only [decide_eq_true_eq]
  change EStateM.run (if pmm.recount current count = numPages then _ else _) pmm = _
  by_cases found : pmm.recount current count = numPages
  · rw [if_pos found, if_pos found]
    rfl
  · rw [if_neg found, if_neg found]
    cases remaining with
    | zero => rfl
    | succ remaining => rfl

/-- The loop finds a free run that starts in its range, if there is one. -/
theorem run_findLoop (remaining : ℕ) (start : remaining ≤ current)
    (inside : current < pmm.bitmapView.numBits) (counted : pmm.FreeRun (current + 1) count)
    (short : count < numPages) :
    (∃ pfn, (findLoop build numPages remaining current count).run pmm =
        .ok (.ok pfn) pmm ∧ current - remaining ≤ pfn ∧
        pfn + numPages ≤ current + 1 + count ∧ pmm.FreeRun pfn numPages) ∨
      (findLoop build numPages remaining current count).run pmm =
        .ok (.error .outOfMemory) pmm ∧
        ∀ pfn, current - remaining ≤ pfn → pfn + numPages ≤ current + 1 + count →
          ¬ pmm.FreeRun pfn numPages := by
  induction remaining generalizing current count with
  | zero =>
    have looked := freeRun_recount counted
    have le : pmm.recount current count ≤ count + 1 := recount_le
    rw [run_findLoop_round 0 inside]
    by_cases found : pmm.recount current count = numPages
    · rw [if_pos found]
      exact Or.inl ⟨current, rfl, Nat.sub_le _ _, by omega, found ▸ looked⟩
    · rw [if_neg found]
      refine Or.inr ⟨rfl, ?_⟩
      intro pfn low high run
      have narrow := freeRun_narrow short (by omega) run high
      omega
  | succ remaining ih =>
    have looked := freeRun_recount counted
    have le : pmm.recount current count ≤ count + 1 := recount_le
    rw [run_findLoop_round (remaining + 1) inside]
    by_cases found : pmm.recount current count = numPages
    · rw [if_pos found]
      exact Or.inl ⟨current, rfl, Nat.sub_le _ _, by omega, found ▸ looked⟩
    · rw [if_neg found]
      have below : pmm.FreeRun (current - 1 + 1) (pmm.recount current count) := by
        rwa [Nat.sub_add_cancel (by omega)]
      rcases ih (by omega) (by omega) below (by omega) with
        ⟨pfn, ran, low, high, run⟩ | ⟨ran, none⟩
      · exact Or.inl ⟨pfn, ran, by omega, by omega, run⟩
      · refine Or.inr ⟨ran, ?_⟩
        intro pfn low high run
        have narrow := freeRun_narrow short (by omega) run high
        exact none pfn (by omega) (by omega) run

/-- `FindContiguousBlock` finds a free run in a range that has one. -/
theorem run_findContiguousBlock {rangeStart rangeEnd : ℕ}
    (nonempty : rangeStart < rangeEnd) (inside : rangeEnd ≤ pmm.bitmapView.numBits)
    (positive : 0 < numPages) :
    (∃ pfn, (findContiguousBlock build rangeStart rangeEnd numPages).run pmm =
        .ok (.ok pfn) pmm ∧ rangeStart ≤ pfn ∧ pfn + numPages ≤ rangeEnd ∧
        pmm.FreeRun pfn numPages) ∨
      (findContiguousBlock build rangeStart rangeEnd numPages).run pmm =
        .ok (.error .outOfMemory) pmm ∧
        ∀ pfn, rangeStart ≤ pfn → pfn + numPages ≤ rangeEnd → ¬ pmm.FreeRun pfn numPages := by
  unfold findContiguousBlock
  rw [run_bind (run_assertTrue nonempty)]
  have last : rangeEnd - 1 < pmm.bitmapView.numBits := by omega
  rcases run_findLoop (rangeEnd - 1 - rangeStart) (Nat.sub_le _ _) last
    (fun i none => absurd none (Nat.not_lt_zero i)) positive with
    ⟨pfn, ran, low, high, run⟩ | ⟨ran, none⟩
  · exact Or.inl ⟨pfn, ran, by omega, by omega, run⟩
  · exact Or.inr ⟨ran, fun pfn low high => none pfn (by omega) (by omega)⟩

/-- The bitmap with all frames of a range marked. -/
def marked (pmm : BitmapPmm) (pfn count : ℕ) (value : Bool) : BitmapPmm where
  bitmapView.bits := fun other =>
    if pfn ≤ other ∧ other < pfn + count then value else pmm.bitmapView.bits other
  bitmapView.numBits := pmm.bitmapView.numBits
  lastAllocIdx := pmm.lastAllocIdx

theorem frameFree_marked_iff {count other : ℕ} :
    (pmm.marked pfn count bitMapAllocated).FrameFree other ↔
      pmm.FrameFree other ∧ ¬ (pfn ≤ other ∧ other < pfn + count) := by
  change (if pfn ≤ other ∧ other < pfn + count then bitMapAllocated
    else pmm.bitmapView.bits other) = bitMapFree ↔ _
  by_cases inside : pfn ≤ other ∧ other < pfn + count
  · rw [if_pos inside]
    exact iff_of_false (by decide) (fun free => free.2 inside)
  · rw [if_neg inside]
    exact (and_iff_left inside).symm

theorem marked_zero : pmm.marked pfn 0 value = pmm := by
  refine congrArg (fun bits : ℕ → Bool => BitmapPmm.mk ⟨bits, _⟩ _) (funext fun other => ?_)
  exact if_neg (by omega)

theorem marked_succ {count : ℕ} :
    ({ pmm with bitmapView := pmm.bitmapView.write pfn value } : BitmapPmm).marked
      (pfn + 1) count value = pmm.marked pfn (count + 1) value := by
  refine congrArg (fun bits : ℕ → Bool => BitmapPmm.mk ⟨bits, _⟩ _) (funext fun other => ?_)
  rw [BitMapView.write_bits]
  by_cases first : other = pfn
  · rw [if_neg (by omega), if_pos first, if_pos (by omega)]
  · rw [if_neg first]
    by_cases later : pfn + 1 ≤ other ∧ other < pfn + 1 + count
    · rw [if_pos later, if_pos (by omega)]
    · rw [if_neg later, if_neg (by omega)]

theorem run_setBit (inside : pfn < pmm.bitmapView.numBits) :
    (setBit build pfn value).run pmm =
      .ok () { pmm with bitmapView := pmm.bitmapView.write pfn value } := by
  unfold setBit
  rw [run_get_bind,
    run_bind (run_guardAccess inside)]
  rfl

theorem run_markAllocated (free : pmm.FrameFree pfn) (inside : pfn < pmm.bitmapView.numBits) :
    (markAllocated build pfn).run pmm =
      .ok () { pmm with bitmapView := pmm.bitmapView.write pfn bitMapAllocated } := by
  unfold markAllocated
  cases build with
  | debug =>
    rw [if_pos rfl]
    simp only [run_get_bind,
      run_bind (run_isFree inside),
      run_bind (run_assertTrue (decide_eq_true free))]
    exact run_setBit inside
  | release => exact run_setBit inside

/-- Marking a range of free frames marks exactly that range. -/
theorem run_markAllocatedLoop (count : ℕ) (run : pmm.FreeRun pfn count)
    (inside : pfn + count ≤ pmm.bitmapView.numBits) :
    (markAllocatedLoop build count pfn).run pmm =
      .ok () (pmm.marked pfn count bitMapAllocated) := by
  induction count generalizing pmm pfn with
  | zero =>
    rw [marked_zero]
    rfl
  | succ count ih =>
    unfold markAllocatedLoop
    have first : pmm.FrameFree pfn := run 0 (Nat.succ_pos count)
    rw [run_bind (run_markAllocated first (by omega)), ← marked_succ]
    apply ih
    · intro i below
      have later := run (i + 1) (by omega)
      change (pmm.bitmapView.write pfn bitMapAllocated).bits (pfn + 1 + i) = _
      rw [BitMapView.write_bits, if_neg (by omega), Nat.add_assoc, Nat.add_comm 1 i]
      exact later
    · change pfn + 1 + count ≤ pmm.bitmapView.numBits
      omega

theorem secondSearchStart_le (lastAllocIdx numPages : ℕ) :
    secondSearchStart lastAllocIdx numPages ≤ lastAllocIdx := by
  unfold secondSearchStart
  by_cases far : (numPages + 1) % 2 ^ 64 < lastAllocIdx
  · rw [if_pos far]
    have shifted : lastAllocIdx + 2 ^ 64 - (numPages + 1) % 2 ^ 64 =
        lastAllocIdx - (numPages + 1) % 2 ^ 64 + 2 ^ 64 := by omega
    rw [shifted, Nat.add_mod_right]
    exact (Nat.mod_le _ _).trans (Nat.sub_le _ _)
  · rw [if_neg far]
    exact Nat.zero_le _

/-- A free run is taken. -/
theorem run_takeRun (positive : 0 < numPages) (run : pmm.FreeRun pfn numPages)
    (inside : pfn + numPages ≤ pmm.bitmapView.numBits) :
    (takeRun build numPages pfn).run pmm = .ok (.ok (pageFrameAddr pfn))
      { pmm.marked pfn numPages bitMapAllocated with lastAllocIdx := pfn } := by
  have marking : (markAllocatedRange build pfn (pfn + numPages)).run pmm =
      .ok () (pmm.marked pfn numPages bitMapAllocated) := by
    unfold markAllocatedRange
    rw [run_bind (run_assertTrue (Nat.lt_add_of_pos_right positive)),
      Nat.add_sub_cancel_left]
    exact run_markAllocatedLoop numPages run inside
  unfold takeRun
  rw [run_bind marking]
  rfl

variable (ready : pmm.lastAllocIdx < pmm.bitmapView.numBits) (positive : 0 < numPages)
include ready positive

/-- The first search sees every free run below the last allocation. -/
theorem run_firstSearch (build : Build) :
    (∃ pfn, (firstSearch build numPages).run pmm = .ok (.ok pfn) pmm ∧
        pfn + numPages ≤ pmm.bitmapView.numBits ∧ pmm.FreeRun pfn numPages) ∨
      (firstSearch build numPages).run pmm = .ok (.error .outOfMemory) pmm ∧
        ∀ pfn, pfn + numPages ≤ pmm.lastAllocIdx → ¬ pmm.FreeRun pfn numPages := by
  unfold firstSearch
  rw [run_get_bind]
  by_cases zero : pmm.lastAllocIdx = 0
  · rw [if_neg (not_not_intro zero)]
    exact Or.inr ⟨rfl, fun pfn below => by omega⟩
  · rw [if_pos zero]
    rcases run_findContiguousBlock (Nat.pos_of_ne_zero zero) ready.le positive with
      ⟨pfn, ran, _, high, run⟩ | ⟨ran, none⟩
    · exact Or.inl ⟨pfn, ran, by omega, run⟩
    · exact Or.inr ⟨ran, fun pfn below => none pfn (Nat.zero_le _) below⟩

/-- The second search sees every free run from its start on. -/
theorem run_secondSearch (build : Build) :
    (∃ pfn, (secondSearch build numPages).run pmm = .ok (.ok pfn) pmm ∧
        pfn + numPages ≤ pmm.bitmapView.numBits ∧ pmm.FreeRun pfn numPages) ∨
      (secondSearch build numPages).run pmm = .ok (.error .outOfMemory) pmm ∧
        ∀ pfn, secondSearchStart pmm.lastAllocIdx numPages ≤ pfn →
          pfn + numPages ≤ pmm.bitmapView.numBits → ¬ pmm.FreeRun pfn numPages := by
  unfold secondSearch
  rw [run_get_bind]
  have start := (secondSearchStart_le pmm.lastAllocIdx numPages).trans_lt ready
  rcases run_findContiguousBlock start le_rfl positive with
    ⟨pfn, ran, _, high, run⟩ | ⟨ran, none⟩
  · exact Or.inl ⟨pfn, ran, high, run⟩
  · exact Or.inr ⟨ran, none⟩

/-- `Alloc` marks a run of free frames, or fails without a change when it sees none. -/
theorem run_alloc (build : Build) :
    (∃ pfn, (alloc build numPages).run pmm = .ok (.ok (pageFrameAddr pfn))
        { pmm.marked pfn numPages bitMapAllocated with lastAllocIdx := pfn } ∧
        pfn + numPages ≤ pmm.bitmapView.numBits ∧ pmm.FreeRun pfn numPages) ∨
      (alloc build numPages).run pmm = .ok (.error .outOfMemory) pmm ∧
        (∀ pfn, pfn + numPages ≤ pmm.lastAllocIdx → ¬ pmm.FreeRun pfn numPages) ∧
        ∀ pfn, secondSearchStart pmm.lastAllocIdx numPages ≤ pfn →
          pfn + numPages ≤ pmm.bitmapView.numBits → ¬ pmm.FreeRun pfn numPages := by
  unfold alloc
  rw [if_neg (Nat.ne_of_gt positive)]
  rcases run_firstSearch ready positive build with ⟨pfn, ran, inside, run⟩ | ⟨ran, none⟩
  · rw [run_bind ran]
    exact Or.inl ⟨pfn, run_takeRun positive run inside, inside, run⟩
  · rw [run_bind ran]
    rcases run_secondSearch ready positive build with ⟨pfn, ran', inside, run⟩ | ⟨ran', none'⟩
    · refine Or.inl ⟨pfn, ?_, inside, run⟩
      rw [run_bind ran']
      exact run_takeRun positive run inside
    · refine Or.inr ⟨?_, none, none'⟩
      rw [run_bind ran']
      rfl

end AlkOS.Mem.BitmapPmm
