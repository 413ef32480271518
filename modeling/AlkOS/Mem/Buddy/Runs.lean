import AlkOS.Mem.Buddy.Invariant

/-!
# Runs of the buddy allocator

A run starts with `Init` and continues with calls of `Alloc` and of `Free` on heads of
live blocks. The live blocks are kept beside the allocator. `Init` itself is a run that
starts with all pages of the pool live.
-/

namespace AlkOS.Mem.BuddyPmm

open Kernel DyadicBlocks Freelists IntrusiveList

/-- The calls of a client. -/
inductive Op where
  | alloc (order : ℕ)
  | free (pfn : ℕ)
deriving DecidableEq, Repr

/-- The allocator and the blocks its clients hold. -/
structure Held where
  pmm : BuddyPmm
  live : Set Block

/-- One returning call. -/
inductive Step (build : Build) : Op → Held → Held → Prop where
  | alloc {s s' : BuddyPmm} {live : Set Block} {order page : ℕ} :
      (alloc build order).run s = .ok (.ok page) s' →
      Step build (.alloc order) ⟨s, live⟩ ⟨s', insert ⟨page / kPageSizeBytes, order⟩ live⟩
  | allocFails {s s' : BuddyPmm} {live : Set Block} {order : ℕ} {error : MemError} :
      (alloc build order).run s = .ok (.error error) s' →
      Step build (.alloc order) ⟨s, live⟩ ⟨s', live⟩
  | free {s s' : BuddyPmm} {live : Set Block} {b : Block} : b ∈ live →
      (free build (pageFrameAddr b.base)).run s = .ok () s' →
      Step build (.free b.base) ⟨s, live⟩ ⟨s', live \ {b}⟩

/-- Any number of returning calls. -/
def Run (build : Build) : Held → Held → Prop :=
  Relation.ReflTransGen fun x y => ∃ op, Step build op x y

variable {build : Build} {s s' : BuddyPmm} {x y z : Held} {pool : Set ℕ} {lists lists' : ℕ → List ℕ}
  {b : Block} {page pfn order : ℕ} {op : Op}

/-- The bookkeeping of a state between two calls. -/
structure Consistent (x : Held) (pool : Set ℕ) (lists : ℕ → List ℕ) : Prop where
  books : Books x.pmm pool lists x.live
  typed : Typed x.pmm lists ∅
  tagged : ∀ b ∈ x.live, (x.pmm.metaAt b.base).type = .allocated
  order : ∀ b ∈ x.live, (x.pmm.metaAt b.base).order = b.order

namespace Consistent

variable (consistent : Consistent x pool lists)
include consistent

/-- A taken block is one more live block. -/
theorem taken {c : Block} (taken : Taken x.pmm s' pool lists lists' x.live c) :
    Consistent ⟨s', insert c x.live⟩ pool lists' := by
  refine ⟨taken.books, taken.typed, ?_, ?_⟩
  · rintro b (rfl | before)
    · exact taken.tagged
    · rw [taken.metaAt_eq consistent.books before]
      exact consistent.tagged b before
  · rintro b (rfl | before)
    · exact taken.order
    · rw [taken.metaAt_eq consistent.books before]
      exact consistent.order b before

/-- `Free` of a live block returns, and only its head and heads of free blocks
are written. -/
theorem free (build : Build) (member : b ∈ x.live) :
    ∃ s' lists', (free build (pageFrameAddr b.base)).run x.pmm = .ok () s' ∧
      Consistent ⟨s', x.live \ {b}⟩ pool lists' ∧
      Freed x.pmm s' pool lists lists' x.live b := by
  obtain ⟨s', lists', ran, freed⟩ := consistent.books.free member
    (consistent.order b member) build consistent.typed (consistent.tagged b member)
  refine ⟨s', lists', ran, ⟨freed.books, freed.typed, ?_, ?_⟩, freed⟩
  · intro c kept
    rw [freed.metaAt_eq consistent.books member kept]
    exact consistent.tagged c kept.1
  · intro c kept
    rw [freed.metaAt_eq consistent.books member kept]
    exact consistent.order c kept.1

/-- `Alloc` returns in every consistent state. -/
theorem alloc_returns (build : Build) (order : ℕ) :
    ∃ result s', (alloc build order).run x.pmm = .ok result s' := by
  rcases consistent.books.alloc_cases consistent.typed build order with
    ⟨s', _, page, ran, _⟩ | ⟨_, ran⟩
  · exact ⟨_, s', ran⟩
  · exact ⟨_, x.pmm, ran⟩

/-- What one call can do. -/
theorem step_cases (step : Step build op x y) :
    (∃ order pfn lists', op = .alloc order ∧ y.live = insert ⟨pfn, order⟩ x.live ∧
        Taken x.pmm y.pmm pool lists lists' x.live ⟨pfn, order⟩) ∨
      (∃ order, op = .alloc order ∧ y = x) ∨
      ∃ b ∈ x.live, ∃ lists', op = .free b.base ∧ y.live = x.live \ {b} ∧
        Consistent y pool lists' ∧ Freed x.pmm y.pmm pool lists lists' x.live b := by
  cases step with
  | @alloc s s' live order page ran =>
    rcases consistent.books.alloc_cases consistent.typed build order with
      ⟨after, lists', pfn, ran', taken⟩ | ⟨_, ran'⟩
    · cases ran.symm.trans ran'
      rw [pageFrameAddr_number taken.inside]
      exact Or.inl ⟨order, pfn, lists', rfl, rfl, taken⟩
    · cases ran.symm.trans ran'
  | @allocFails s s' live order error ran =>
    refine Or.inr (Or.inl ⟨order, rfl, ?_⟩)
    rcases consistent.books.alloc_cases consistent.typed build order with
      ⟨after, lists', pfn, ran', _⟩ | ⟨_, ran'⟩
    · cases ran.symm.trans ran'
    · cases ran.symm.trans ran'
      rfl
  | @free s s' live b member ran =>
    obtain ⟨after, lists', ran', kept, freed⟩ := consistent.free build member
    cases ran.symm.trans ran'
    exact Or.inr (Or.inr ⟨b, member, lists', rfl, rfl, kept, freed⟩)

/-- Every call keeps the bookkeeping and the number of frames. -/
theorem step (step : Step build op x y) :
    ∃ lists', Consistent y pool lists' ∧ y.pmm.pmt.totalPages = x.pmm.pmt.totalPages := by
  rcases consistent.step_cases step with ⟨order, pfn, lists', _, live, taken⟩ | ⟨_, _, rfl⟩ |
    ⟨b, _, lists', _, _, kept, freed⟩
  · have total := taken.frame.numPageFrames
    obtain ⟨pmm, _⟩ := y
    cases live
    exact ⟨lists', consistent.taken taken, total⟩
  · exact ⟨lists, consistent, rfl⟩
  · exact ⟨lists', kept, freed.frame.numPageFrames⟩

/-- Every run keeps the bookkeeping and the number of frames. -/
theorem run (run : Run build x y) :
    ∃ lists', Consistent y pool lists' ∧ y.pmm.pmt.totalPages = x.pmm.pmt.totalPages := by
  induction run with
  | refl => exact ⟨lists, consistent, rfl⟩
  | tail _ step ih =>
    obtain ⟨_, before, same⟩ := ih
    obtain ⟨_, step⟩ := step
    obtain ⟨lists', after, kept⟩ := before.step step
    exact ⟨lists', after, kept.trans same⟩

end Consistent

/-- The pages `Init` takes over: the first `pageLimit` free frames. -/
def handedOver (bPmm : BitmapPmm) (pageLimit totalPages : ℕ) : Set ℕ :=
  { pfn | pfn < totalPages ∧ bPmm.FrameFree pfn ∧ Nat.count bPmm.FrameFree pfn < pageLimit }

/-- The pages of a pool from `pfn` on, each held as a block of one page. -/
def pending (pool : Set ℕ) (pfn : ℕ) : Set Block :=
  { b | b.order = 0 ∧ b.base ∈ pool ∧ pfn ≤ b.base }

/-- `Init` starts with every page of the pool held by nobody in particular. -/
def booting (s : BuddyPmm) (pmt : PageMetaTable) (pool : Set ℕ) : Held :=
  ⟨s.initAllocatedState pmt, pending pool 0⟩

theorem pending_zero : pending pool 0 = Block.singles pool := by
  ext b
  exact ⟨fun member => ⟨member.1, member.2.1⟩, fun member => ⟨member.1, member.2, Nat.zero_le _⟩⟩

theorem booting_metaAt (pmt : PageMetaTable) (bound : page < pmt.totalPages) :
    (booting s pmt pool).pmm.metaAt page = (pmt.pageFramesMetas page).initAllocated 0 :=
  if_pos bound

/-- The books are in order when `Init` starts. -/
theorem booting_consistent (pmt : PageMetaTable) (inside : ∀ page ∈ pool, page < pmt.totalPages) :
    Consistent (booting s pmt pool) pool (fun _ => []) := by
  have books : Books (booting s pmt pool).pmm (∅ ∪ pool) _ (∅ ∪ Block.singles pool) :=
    (Books.nothing fun _ bound => if_pos bound).adopt (Set.disjoint_empty pool) inside
  rw [Set.empty_union, Set.empty_union, ← pending_zero] at books
  refine ⟨books, ?_, ?_, ?_⟩
  · intro page bound tagged
    rw [booting_metaAt pmt bound] at tagged
    cases tagged
  · intro b member
    rw [booting_metaAt pmt (inside b.base member.2.1)]
    rfl
  · intro b member
    rw [booting_metaAt pmt (inside b.base member.2.1), member.1]
    rfl

/-- The blocks met when the freelists are followed. -/
def freeBlocks (s : BuddyPmm) : Set Block :=
  { b | b.order ≤ kMaxOrder ∧ OnList s.next (s.freelistTable b.order) b.base }

theorem Freelists.freeBlocks_eq (freelists : Freelists s lists) :
    freeBlocks s = blocksOf lists := by
  ext b
  constructor
  · intro ⟨bound, met⟩
    exact (freelists.linked b.order bound).mem_iff_onList.mpr met
  · intro member
    have bound := freelists.bounded b.order b.base member
    exact ⟨bound, (freelists.linked b.order bound).mem_iff_onList.mp member⟩

/-- The frame is the first one of a free or of a live block. -/
def Held.Heads (x : Held) (pfn : ℕ) : Prop :=
  (∃ order, (⟨pfn, order⟩ : Block) ∈ freeBlocks x.pmm) ∨ ∃ order, (⟨pfn, order⟩ : Block) ∈ x.live

theorem Consistent.heads_iff (consistent : Consistent x pool lists) :
    x.Heads pfn ↔ pfn ∈ members lists ∨ ∃ order, (⟨pfn, order⟩ : Block) ∈ x.live := by
  unfold Held.Heads
  rw [consistent.books.freelists.freeBlocks_eq]
  rfl

open Classical in
/-- The call that last ended a frame's time as head of a block. -/
noncomputable def retire (op : Op) (x y : Held) (retiredBy : ℕ → Option Op) (pfn : ℕ) :
    Option Op :=
  if x.Heads pfn ∧ ¬ y.Heads pfn then some op else retiredBy pfn

/-- A run together with the record of how frames stopped being heads. -/
inductive History (build : Build) (x : Held) (retiredBy : ℕ → Option Op) :
    Held → (ℕ → Option Op) → Prop where
  | refl : History build x retiredBy x retiredBy
  | step {y z : Held} {op : Op} {between : ℕ → Option Op} :
      History build x retiredBy y between → Step build op y z →
      History build x retiredBy z (retire op y z between)

namespace History

variable {retiredBy between after : ℕ → Option Op}

theorem run (history : History build x retiredBy y after) : Run build x y := by
  induction history with
  | refl => exact Relation.ReflTransGen.refl
  | step _ step ih => exact ih.tail ⟨_, step⟩

theorem trans (first : History build x retiredBy y between)
    (second : History build y between z after) : History build x retiredBy z after := by
  induction second with
  | refl => exact first
  | step _ step ih => exact ih.step step

theorem single (step : Step build op x y) :
    History build x retiredBy y (retire op x y retiredBy) := History.refl.step step

/-- Every run has a history. -/
theorem of_run (run : Run build x y) : ∃ after, History build x retiredBy y after := by
  induction run with
  | refl => exact ⟨retiredBy, .refl⟩
  | tail _ step ih =>
    obtain ⟨between, history⟩ := ih
    obtain ⟨op, step⟩ := step
    exact ⟨_, history.step step⟩

end History

section Init

variable {bPmm : BitmapPmm} {pageLimit totalPages : ℕ}

theorem pending_eq_empty (beyond : ∀ page ∈ pool, page < pfn) : pending pool pfn = ∅ := by
  apply Set.eq_empty_of_forall_notMem
  intro b member
  exact absurd (beyond b.base member.2.1) (Nat.not_lt.mpr member.2.2)

theorem pending_succ : pending pool pfn \ {⟨pfn, 0⟩} = pending pool (pfn + 1) := by
  ext ⟨base, order⟩
  constructor
  · intro ⟨⟨single, inside, from'⟩, apart⟩
    refine ⟨single, inside, Nat.lt_of_le_of_ne from' ?_⟩
    rintro rfl
    exact apart (congrArg (Block.mk pfn) single)
  · intro ⟨single, inside, later⟩
    refine ⟨⟨single, inside, Nat.le_of_succ_le later⟩, ?_⟩
    intro same
    exact Nat.ne_of_gt later (congrArg Block.base same)

/-- The page loop of `Init` frees the rest of the pool page by page, or reads past the bitmap. -/
theorem initLoop_history (count : ℕ) (retiredBy : ℕ → Option Op) {freed : ℕ}
    (handed : pool = handedOver bPmm pageLimit totalPages)
    (consistent : Consistent ⟨s, pending pool pfn⟩ pool lists)
    (left : pfn + count = totalPages) (counted : Nat.count bPmm.FrameFree pfn = freed) :
    (∃ s' after, (initLoop build bPmm pageLimit count pfn freed).run s = .ok () s' ∧
        History build ⟨s, pending pool pfn⟩ retiredBy ⟨s', ∅⟩ after) ∨
      ∃ panic s', (initLoop build bPmm pageLimit count pfn freed).run s =
        .error panic s' ∧ bPmm.bitmapView.numBits < totalPages := by
  induction count generalizing s pfn freed lists retiredBy with
  | zero =>
    refine Or.inl ⟨s, retiredBy, rfl, ?_⟩
    rw [pending_eq_empty]
    · exact .refl
    · intro page inside
      rw [handed] at inside
      exact inside.1.trans_eq left.symm
  | succ count ih =>
    unfold initLoop
    by_cases more : freed < pageLimit
    · rw [if_pos more]
      by_cases covered : pfn < bPmm.bitmapView.numBits
      · rw [run_bind (BitmapPmm.run_isFree covered)]
        by_cases isFree : bPmm.FrameFree pfn
        · have member : (⟨pfn, 0⟩ : Block) ∈ pending pool pfn := by
            refine ⟨rfl, ?_, le_rfl⟩
            rw [handed]
            exact ⟨left ▸ Nat.lt_add_of_pos_right (Nat.succ_pos count), isFree, counted ▸ more⟩
          obtain ⟨middle, lists', ran, freedState, _⟩ := consistent.free build member
          have step : Step build (.free pfn) ⟨s, pending pool pfn⟩
              ⟨middle, pending pool (pfn + 1)⟩ :=
            pending_succ ▸ Step.free member ran
          rw [pending_succ] at freedState
          have recounted : Nat.count bPmm.FrameFree (pfn + 1) = freed + 1 := by
            rw [Nat.count_succ, if_pos isFree, counted]
          simp only [isFree, decide_true, ↓reduceIte, run_bind ran]
          rcases ih _ freedState (by omega) recounted with ⟨s', after, rest, history⟩ | failed
          · exact Or.inl ⟨s', after, rest, (History.single step).trans history⟩
          · exact Or.inr failed
        · have skipped : pending pool pfn = pending pool (pfn + 1) := by
            rw [← pending_succ, Set.sdiff_singleton_eq_self]
            intro member
            have inside : pfn ∈ pool := member.2.1
            rw [handed] at inside
            exact isFree inside.2.1
          have recounted : Nat.count bPmm.FrameFree (pfn + 1) = freed := by
            rw [Nat.count_succ, if_neg isFree, counted, Nat.add_zero]
          simp only [isFree]
          rw [skipped] at consistent ⊢
          exact ih retiredBy consistent (by omega) recounted
      · obtain ⟨panic, stopped⟩ := BitmapPmm.run_isFree_of_not build s covered
        exact Or.inr ⟨panic, s, run_bind_of_error stopped, by omega⟩
    · rw [if_neg more]
      refine Or.inl ⟨s, retiredBy, rfl, ?_⟩
      rw [pending_eq_empty]
      · exact .refl
      · intro page inside
        rw [handed] at inside
        by_contra later
        have grown := Nat.count_monotone bPmm.FrameFree (Nat.le_of_not_lt later)
        have small := inside.2.2
        omega

variable {pmt : PageMetaTable}

theorem booting_handedOver_consistent :
    Consistent (booting s pmt (handedOver bPmm pageLimit pmt.totalPages))
      (handedOver bPmm pageLimit pmt.totalPages) (fun _ => []) :=
  booting_consistent pmt (fun _ inside => inside.1)

/-- A returning `Init` frees exactly the pages it hands over. -/
theorem init_history (ran : (init build bPmm pmt pageLimit).run s = .ok () s') :
    ∃ after, History build (booting s pmt (handedOver bPmm pageLimit pmt.totalPages))
      (fun _ => none) ⟨s', ∅⟩ after := by
  rcases initLoop_history pmt.totalPages (fun _ => none) rfl
    booting_handedOver_consistent (Nat.zero_add _) (Nat.count_zero _) with
    ⟨_, after, ran', history⟩ | ⟨_, _, stopped, _⟩
  · cases ran.symm.trans ran'
    exact ⟨after, history⟩
  · cases ran.symm.trans stopped

/-- `Init` returns when the bitmap has a bit for every frame. -/
theorem init_returns (s : BuddyPmm)
    (covers : pmt.totalPages ≤ bPmm.bitmapView.numBits) :
    ∃ s', (init build bPmm pmt pageLimit).run s = .ok () s' := by
  rcases initLoop_history pmt.totalPages (fun _ => none) rfl
    booting_handedOver_consistent (Nat.zero_add _) (Nat.count_zero _) with
    ⟨s', _, ran, _⟩ | ⟨_, _, _, short⟩
  · exact ⟨s', ran⟩
  · exact absurd covers (Nat.not_le.mpr short)

/-- All states reached after `Init` are consistent. -/
theorem consistent_of_init (ran : (init build bPmm pmt pageLimit).run s = .ok () s')
    (run : Run build ⟨s', ∅⟩ x) :
    ∃ lists, Consistent x (handedOver bPmm pageLimit pmt.totalPages) lists ∧
      x.pmm.pmt.totalPages = pmt.totalPages := by
  obtain ⟨_, history⟩ := init_history ran
  exact booting_handedOver_consistent.run (history.run.trans run)

end Init

end AlkOS.Mem.BuddyPmm
