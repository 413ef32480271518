import AlkOS.Mem.Buddy.Lists

/-!
# The bookkeeping invariant of the buddy allocator

The blocks on the freelists and the live blocks tile the pool, and only members of
freelists are tagged `Buddy`. A block on its way between the two sides counts as live.
Each operation is specified by what it does to the tiling and by the frames it may
write.
-/

namespace AlkOS.Mem.BuddyPmm

open Kernel DyadicBlocks Freelists Function

variable {build : Build} {s s' s'' : BuddyPmm} {pool touched touched' : Set ℕ}
  {lists lists' : ℕ → List ℕ} {live : Set Block} {b : Block} {page k : ℕ} {value : PageMeta}

/-- The blocks on the freelists. -/
def blocksOf (lists : ℕ → List ℕ) : Set Block := { b | b.base ∈ lists b.order }

theorem blocksOf_nil : blocksOf (fun _ => []) = ∅ :=
  Set.eq_empty_of_forall_notMem fun _ member => List.not_mem_nil member

theorem blocksOf_push :
    blocksOf (update lists k (page :: lists k)) = insert ⟨page, k⟩ (blocksOf lists) := by
  ext ⟨base, order⟩
  change base ∈ update lists k (page :: lists k) order ↔ _ ∨ base ∈ lists order
  by_cases same : order = k
  · subst same
    rw [update_self, List.mem_cons, Block.mk.injEq, and_iff_left rfl]
  · rw [update_of_ne same, Block.mk.injEq]
    exact ⟨Or.inr, fun listed => listed.resolve_left (fun eq => same eq.2)⟩

theorem blocksOf_remove (distinct : (lists k).Nodup) :
    blocksOf (update lists k ((lists k).erase page)) = blocksOf lists \ {⟨page, k⟩} := by
  ext ⟨base, order⟩
  change base ∈ update lists k ((lists k).erase page) order ↔
    base ∈ lists order ∧ ¬ _ = _
  by_cases same : order = k
  · subst same
    rw [update_self, distinct.mem_erase_iff, Block.mk.injEq, and_iff_left rfl, and_comm]
  · rw [update_of_ne same, Block.mk.injEq]
    exact ⟨fun listed => ⟨listed, fun eq => same eq.2⟩, fun listed => listed.1⟩

/-- The members of the freelists are the bases of the blocks on them. -/
theorem mem_members : page ∈ members lists ↔ ∃ k, (⟨page, k⟩ : Block) ∈ blocksOf lists := Iff.rfl

theorem members_push :
    members (update lists k (page :: lists k)) = insert page (members lists) := by
  ext other
  rw [mem_members, blocksOf_push]
  constructor
  · rintro ⟨j, same | listed⟩
    · exact Or.inl (congrArg Block.base same)
    · exact Or.inr ⟨j, listed⟩
  · rintro (rfl | ⟨j, listed⟩)
    · exact ⟨k, Or.inl rfl⟩
    · exact ⟨j, Or.inr listed⟩

/-- A block leaves its list. -/
theorem members_remove (freelists : Freelists s lists) (member : page ∈ lists k) :
    members (update lists k ((lists k).erase page)) = members lists \ {page} := by
  have distinct := (freelists.linked k (freelists.bounded k page member)).nodup
  ext other
  rw [mem_members, blocksOf_remove distinct]
  constructor
  · rintro ⟨j, listed, apart⟩
    refine ⟨⟨j, listed⟩, ?_⟩
    rintro rfl
    exact apart (congrArg (Block.mk other) (freelists.order_unique listed member))
  · rintro ⟨⟨j, listed⟩, apart⟩
    exact ⟨j, listed, fun same => apart (congrArg Block.base same)⟩

theorem members_subset_area : members lists ⊆ Block.area (blocksOf lists) := by
  intro page listed
  obtain ⟨k, member⟩ := listed
  exact Block.pages_subset_area (b := ⟨page, k⟩) member (Block.base_mem_pages _)

/-- `s'` has as many frames as `s`, and only metadata in `touched` was written. -/
structure Frame (s s' : BuddyPmm) (touched : Set ℕ) : Prop where
  numPageFrames : s'.pmt.numPageFrames = s.pmt.numPageFrames
  elsewhere : ∀ page ∉ touched, s'.metaAt page = s.metaAt page

namespace Frame

theorem refl : Frame s s touched := ⟨rfl, fun _ _ => rfl⟩

theorem trans (first : Frame s s' touched) (second : Frame s' s'' touched') :
    Frame s s'' (touched ∪ touched') := by
  refine ⟨second.numPageFrames.trans first.numPageFrames, ?_⟩
  intro page outside
  exact (second.elsewhere page (fun inside => outside (Or.inr inside))).trans
    (first.elsewhere page (fun inside => outside (Or.inl inside)))

theorem mono (frame : Frame s s' touched) (subset : touched ⊆ touched') : Frame s s' touched' :=
  ⟨frame.numPageFrames, fun page outside =>
    frame.elsewhere page (fun inside => outside (subset inside))⟩

theorem setMeta : Frame s (s.setMeta page value) {page} := by
  refine ⟨rfl, ?_⟩
  intro other outside
  exact metaAt_setMeta.trans (if_neg outside)

end Frame

theorem Relinked.frame (relinked : Relinked s s' touched) : Frame s s' touched :=
  ⟨relinked.numPageFrames, relinked.elsewhere⟩

/-- Tagging a frame that is on no freelist and pushing it. -/
theorem Freelists.pushFresh (build : Build) (prepared : BuddyPmm) (freelists : Freelists s lists)
    (bound : k ≤ kMaxOrder) (fresh : page ∉ members lists)
    (table : prepared.freelistTable = s.freelistTable) (frame : Frame s prepared {page})
    (tagged : (prepared.metaAt page).type = .buddy) (order : (prepared.metaAt page).order = k) :
    ∃ s', (BuddyPmm.listPush build page).run prepared = .ok () s' ∧
      Freelists s' (update lists k (page :: lists k)) ∧
      Frame s s' (insert page (members lists)) ∧
      ∀ other ≠ page, (s'.metaAt other).type = (s.metaAt other).type := by
  have kept : Freelists prepared lists := freelists.congr table (fun j other listed =>
    frame.elsewhere other (fun same => fresh ⟨j, same ▸ listed⟩))
  obtain ⟨s', ran, pushed, relinked⟩ := kept.listPush build bound tagged order fresh
  refine ⟨s', ran, pushed, ?_, ?_⟩
  · refine (frame.trans relinked.frame).mono (Set.union_subset ?_ subset_rfl)
    exact Set.singleton_subset_iff.mpr (Set.mem_insert _ _)
  · intro other apart
    rw [relinked.sameType, frame.elsewhere other apart]

/-- The freelists and the live blocks tile the pool. -/
structure Books (s : BuddyPmm) (pool : Set ℕ) (lists : ℕ → List ℕ) (live : Set Block) :
    Prop where
  freelists : Freelists s lists
  tiling : Tiling kMaxOrder pool (blocksOf lists) live
  inside : ∀ page ∈ pool, page < s.pmt.numPageFrames

/-- Outside of `transit`, only members of freelists are tagged `Buddy`. -/
def Typed (s : BuddyPmm) (lists : ℕ → List ℕ) (transit : Set ℕ) : Prop :=
  ∀ page < s.pmt.numPageFrames, (s.metaAt page).type = .buddy →
    page ∈ transit ∨ page ∈ members lists

theorem Typed.setMeta {transit : Set ℕ} (typed : Typed s lists transit)
    (other : value.type ≠ .buddy) : Typed (s.setMeta page value) lists transit := by
  intro frame inside buddy
  rw [metaAt_setMeta] at buddy
  split_ifs at buddy with here
  · exact absurd buddy other
  · exact typed frame inside buddy

namespace Books

/-- Nothing is managed while all freelists are empty. -/
theorem nothing (heads : ∀ k ≤ kMaxOrder, s.freelistTable k = none) :
    Books s ∅ (fun _ => []) ∅ := by
  refine ⟨.empty heads, ?_, fun _ none => none.elim⟩
  rw [blocksOf_nil]
  exact Tiling.empty

section

variable (books : Books s pool lists live)
include books

/-- Frames outside of the pool join it as live blocks. -/
theorem adopt {pages : Set ℕ} (outside : Disjoint pages pool)
    (inside : ∀ page ∈ pages, page < s.pmt.numPageFrames) :
    Books s (pool ∪ pages) lists (live ∪ Block.singles pages) := by
  refine ⟨books.freelists, books.tiling.adopt outside, ?_⟩
  intro page member
  rcases member with managed | joined
  · exact books.inside page managed
  · exact inside page joined

theorem live_fresh (member : b ∈ live) (here : page ∈ b.pages) : page ∉ members lists :=
  fun listed => books.tiling.live_not_in_area member here (members_subset_area listed)

theorem live_inside (member : b ∈ live) (here : page ∈ b.pages) : page < s.pmt.numPageFrames := by
  apply books.inside page
  rw [← books.tiling.partition.cover]
  exact Block.pages_subset_area (Or.inr member) here

theorem live_below (member : b ∈ live) : b.base + 2 ^ b.order ≤ s.pmt.numPageFrames := by
  have positive : 0 < 2 ^ b.order := Nat.two_pow_pos b.order
  have last : b.base + 2 ^ b.order - 1 ∈ b.pages := Block.mem_pages.mpr (by omega)
  have inside := books.live_inside member last
  omega

theorem free_inside (member : b ∈ blocksOf lists) (here : page ∈ b.pages) :
    page < s.pmt.numPageFrames := by
  apply books.inside page
  rw [← books.tiling.partition.cover]
  exact Block.pages_subset_area (Or.inl member) here

theorem order_le (member : b ∈ live) : b.order ≤ kMaxOrder :=
  books.tiling.partition.order_le b (Or.inr member)

/-- Metadata off the freelists is free to change. -/
theorem congr (table : s'.freelistTable = s.freelistTable) (frame : Frame s s' touched)
    (off : ∀ page ∈ touched, page ∉ members lists) :
    Books s' pool lists live := by
  refine ⟨books.freelists.congr table ?_, books.tiling, ?_⟩
  · intro k page listed
    exact frame.elsewhere page (fun inside => off page inside ⟨k, listed⟩)
  · rw [frame.numPageFrames]
    exact books.inside

/-- A block in the way of another live block is that block. -/
theorem live_eq (member : b ∈ live) {c : Block} (other : c ∈ live) (here : page ∈ b.pages)
    (there : page ∈ c.pages) : b = c :=
  books.tiling.partition.owner_unique b (Or.inr member) c (Or.inr other) page here there

end

/-- Pushing the upper half of a live block shrinks the block to its lower half. -/
theorem listPush_high (build : Build) (books : Books s pool lists live) (member : b ∈ live)
    (positive : 0 < b.order) :
    ∃ s', (listPush build b.high.base).run
        (s.setMeta b.high.base ((s.metaAt b.high.base).initBuddy (b.order - 1))) = .ok () s' ∧
      Books s' pool (update lists (b.order - 1) (b.high.base :: lists (b.order - 1)))
        (insert b.low (live \ {b})) ∧
      Frame s s' (insert b.high.base (members lists)) ∧
      ∀ page ≠ b.high.base, (s'.metaAt page).type = (s.metaAt page).type := by
  have inBlock : b.high.base ∈ b.pages :=
    b.low_pages_union_high_pages positive ▸ Or.inr b.high.base_mem_pages
  have fresh := books.live_fresh member inBlock
  obtain ⟨s', ran, freelists, frame, types⟩ := books.freelists.pushFresh build
    (s.setMeta b.high.base ((s.metaAt b.high.base).initBuddy (b.order - 1)))
    ((Nat.sub_le _ _).trans (books.order_le member)) fresh rfl Frame.setMeta
    (congrArg PageMeta.type (metaAt_setMeta.trans (if_pos rfl)))
    (congrArg PageMeta.order (metaAt_setMeta.trans (if_pos rfl)))
  refine ⟨s', ran, ⟨freelists, ?_, ?_⟩, frame, types⟩
  · rw [blocksOf_push]
    exact books.tiling.split member positive
  · rw [frame.numPageFrames]
    exact books.inside

/-- The loop of `SplitBlock` gives the upper parts of a live block away. -/
theorem splitLoop (build : Build) {target : ℕ} (count : ℕ) (books : Books s pool lists live)
    (member : b ∈ live) (size : b.order = target + count) :
    ∃ s' lists', (splitLoop build b.base count b.order).run s = .ok () s' ∧
      Books s' pool lists' (insert ⟨b.base, target⟩ (live \ {b})) ∧
      Frame s s' (b.pages \ {b.base} ∪ members lists) ∧
      members lists ⊆ members lists' ∧
      ∀ page ∉ members lists', (s'.metaAt page).type = (s.metaAt page).type := by
  induction count generalizing s lists live b with
  | zero =>
    have same : (⟨b.base, target⟩ : Block) = b := by
      rw [← Nat.add_zero target, ← size]
    refine ⟨s, lists, rfl, ?_, Frame.refl, subset_rfl, fun _ _ => rfl⟩
    rw [same, Set.insert_sdiff_singleton, Set.insert_eq_of_mem member]
    exact books
  | succ count ih =>
    have positive : 0 < b.order := size ▸ Nat.succ_pos (target + count)
    have aligned := books.tiling.live_aligned member
    have halves := b.low_pages_union_high_pages positive
    have inLow : b.low.pages ⊆ b.pages := halves ▸ Set.subset_union_left
    have highIn : b.high.base ∈ b.pages := halves ▸ Or.inr b.high.base_mem_pages
    have buddy : getBuddyPfn b.base (b.order - 1) = b.high.base := by
      unfold getBuddyPfn
      rw [Nat.one_shiftLeft]
      exact congrArg Block.base (aligned.low_buddy positive)
    obtain ⟨middle, pushed, shrunk, frame, types⟩ := books.listPush_high build member positive
    have lowFresh : b.low ∉ live \ {b} := by
      intro kept
      exact kept.2 (books.live_eq kept.1 member b.low.base_mem_pages
        (inLow b.low.base_mem_pages))
    have smaller : b.low.order = target + count := Nat.sub_eq_of_eq_add size
    obtain ⟨s', lists', ran, books', frame', grown, types'⟩ :=
      ih shrunk (Set.mem_insert _ _) smaller
    rw [Set.insert_sdiff_self_of_notMem lowFresh] at books'
    rw [members_push] at frame' grown
    refine ⟨s', lists', ?_, books', ?_, ?_, ?_⟩
    · unfold BuddyPmm.splitLoop
      simp only [buddy, run_bind run_load, run_bind run_store,
        run_bind (run_getPageMeta (books.live_inside member highIn)),
        run_bind pushed]
      exact ran
    · have highApart : b.high.base ≠ b.base := fun same =>
        Set.disjoint_left.mp b.low_pages_disjoint_high_pages b.low.base_mem_pages
          (same ▸ b.high.base_mem_pages)
      have pushedIn : insert b.high.base (members lists) ⊆
          b.pages \ {b.base} ∪ members lists :=
        Set.insert_subset (Or.inl ⟨highIn, highApart⟩) Set.subset_union_right
      refine (frame.trans frame').mono (Set.union_subset pushedIn (Set.union_subset ?_ pushedIn))
      exact (Set.sdiff_subset_sdiff_left inLow).trans Set.subset_union_left
    · exact (Set.subset_insert _ _).trans grown
    · intro page unlisted
      rw [types' page unlisted]
      exact types page (fun same => unlisted (same ▸ grown (Set.mem_insert _ _)))

end Books

/-- `MergeBlock` grew the block `b` into `c` by absorbing free blocks, whose heads it retired. -/
structure Absorbed (s s' : BuddyPmm) (pool : Set ℕ) (lists lists' : ℕ → List ℕ)
    (live : Set Block) (b c : Block) : Prop where
  books : Books s' pool lists' (insert c (live \ {b}))
  typed : Typed s' lists' ∅
  fresh : c ∉ live \ {b}
  frame : Frame s s' (members lists)
  listed : members lists' ⊆ members lists
  base : c.base = b.base ∨ c.base ∈ members lists
  retired : ∀ page ∈ members lists, page ∉ members lists' → (s'.metaAt page).type = .dummy

namespace Absorbed

variable {c d : Block} {lists'' : ℕ → List ℕ}

theorem refl (books : Books s pool lists live) (typed : Typed s lists ∅) (member : b ∈ live) :
    Absorbed s s pool lists lists live b b := by
  refine ⟨?_, typed, fun kept => kept.2 rfl, Frame.refl, subset_rfl, Or.inl rfl, ?_⟩
  · rw [Set.insert_sdiff_singleton, Set.insert_eq_of_mem member]
    exact books
  · intro page listed unlisted
    exact (unlisted listed).elim

theorem trans (first : Absorbed s s' pool lists lists' live b c)
    (second : Absorbed s' s'' pool lists' lists'' (insert c (live \ {b})) c d) :
    Absorbed s s'' pool lists lists'' live b d := by
  have same := Set.insert_sdiff_self_of_notMem first.fresh
  refine ⟨same ▸ second.books, second.typed, same ▸ second.fresh, ?_,
    second.listed.trans first.listed, ?_, ?_⟩
  · exact (first.frame.trans second.frame).mono (Set.union_subset subset_rfl first.listed)
  · rcases second.base with same | absorbed
    · rw [same]
      exact first.base
    · exact Or.inr (first.listed absorbed)
  · intro page listed unlisted
    by_cases between : page ∈ members lists'
    · exact second.retired page between unlisted
    · rw [second.frame.elsewhere page between]
      exact first.retired page listed between

end Absorbed

/-- `Free` gave the block `b` back to the free side. -/
structure Freed (s s' : BuddyPmm) (pool : Set ℕ) (lists lists' : ℕ → List ℕ)
    (live : Set Block) (b : Block) : Prop where
  books : Books s' pool lists' (live \ {b})
  typed : Typed s' lists' ∅
  frame : Frame s s' (insert b.base (members lists))
  kept : ∀ page ∉ members lists', page ∉ members lists →
    (s'.metaAt page).type = (s.metaAt page).type
  absorbed : ∀ page ∈ members lists, page ∉ members lists' → (s'.metaAt page).type = .dummy

namespace Freed

variable (freed : Freed s s' pool lists lists' live b)
include freed

/-- `Free` brings no tags but those of free and of absorbed blocks. -/
theorem type_eq {type : PageMetaType} (now : (s'.metaAt page).type = type)
    (notFree : type ≠ .buddy) (notDummy : type ≠ .dummy) : (s.metaAt page).type = type := by
  have unlisted := freed.books.freelists.notMem_members (now ▸ notFree)
  by_cases before : page ∈ members lists
  · exact absurd (now.symm.trans (freed.absorbed page before unlisted)) notDummy
  · exact (freed.kept page unlisted before).symm.trans now

/-- The heads of the other live blocks are kept. -/
theorem metaAt_eq {c : Block} (books : Books s pool lists live) (member : b ∈ live)
    (other : c ∈ live \ {b}) : s'.metaAt c.base = s.metaAt c.base := by
  apply freed.frame.elsewhere
  rintro (head | listed)
  · exact other.2 (books.live_eq other.1 member c.base_mem_pages (head ▸ b.base_mem_pages))
  · exact books.live_fresh other.1 c.base_mem_pages listed

end Freed

namespace Books

section

variable (books : Books s pool lists live)
include books

theorem parent_fresh (member : b ∈ live) : b.parent ∉ live := by
  intro inLive
  have inParent : b.base ∈ b.parent.pages :=
    (books.tiling.live_aligned member).parent_pages ▸ Or.inl b.base_mem_pages
  have same := congrArg Block.order (books.live_eq member inLive b.base_mem_pages inParent)
  exact Nat.succ_ne_self b.order same.symm

/-- One round of `MergeBlock`: the parent takes the place of a block and its free buddy. -/
theorem absorb (typed : Typed s lists ∅) (member : b ∈ live) (buddy : b.buddy ∈ blocksOf lists)
    (room : b.order < kMaxOrder) :
    ∃ middle lists', (listRemove build b.buddy.base).run s = .ok () middle ∧
      Absorbed s (middle.setMeta b.buddy.base { middle.metaAt b.buddy.base with type := .dummy })
        pool lists lists' live b b.parent := by
  have listed : b.buddy.base ∈ lists b.order := buddy
  have distinct := (books.freelists.linked b.order room.le).nodup
  obtain ⟨middle, ran, freelists, relinked⟩ := books.freelists.listRemove build listed
  have remaining := members_remove books.freelists listed
  refine ⟨middle, update lists b.order ((lists b.order).erase b.buddy.base), ran,
    ⟨?_, ?_, ?_⟩, ?_, fun kept => books.parent_fresh member kept.1, ?_, ?_, ?_, ?_⟩
  · refine freelists.congr rfl ?_
    intro j page inside
    have apart := (remaining.subset ⟨j, inside⟩).2
    exact metaAt_setMeta.trans (if_neg apart)
  · rw [blocksOf_remove distinct]
    exact books.tiling.merge member buddy room
  · rw [numPageFrames_setMeta, relinked.numPageFrames]
    exact books.inside
  · intro page bound tagged
    rw [numPageFrames_setMeta, relinked.numPageFrames] at bound
    rw [metaAt_setMeta] at tagged
    by_cases same : page = b.buddy.base
    · rw [if_pos same] at tagged
      cases tagged
    · rw [if_neg same, relinked.sameType] at tagged
      rw [remaining]
      exact (typed page bound tagged).imp_right (fun before => ⟨before, same⟩)
  · refine (relinked.frame.trans Frame.setMeta).mono (Set.union_subset subset_rfl ?_)
    exact Set.singleton_subset_iff.mpr ⟨b.order, listed⟩
  · rw [remaining]
    exact Set.sdiff_subset
  · rcases min_choice b.base b.buddy.base with own | other
    · exact Or.inl own
    · refine Or.inr ⟨b.order, ?_⟩
      change min b.base b.buddy.base ∈ lists b.order
      rw [other]
      exact listed
  · intro page before gone
    rw [remaining] at gone
    have same : page = b.buddy.base := by
      by_contra apart
      exact gone ⟨before, apart⟩
    rw [metaAt_setMeta, if_pos same]

/-- The tag and order that `MergeBlock` reads tell whether the buddy is free. -/
theorem buddy_free_iff (typed : Typed s lists ∅) (bound : b.buddy.base < s.pmt.numPageFrames) :
    ((s.metaAt b.buddy.base).type = .buddy ∧ (s.metaAt b.buddy.base).order = b.order) ↔
      b.buddy ∈ blocksOf lists := by
  constructor
  · intro ⟨tagged, order⟩
    rcases typed _ bound tagged with absent | ⟨j, listed⟩
    · exact absent.elim
    · have same := (books.freelists.tagged j _ listed).2.symm.trans order
      change b.buddy.base ∈ lists b.order
      exact same ▸ listed
  · intro listed
    exact books.freelists.tagged b.order _ listed

end

theorem getBuddyPfn_base (b : Block) : getBuddyPfn b.base b.order = b.buddy.base := by
  unfold getBuddyPfn
  rw [Nat.one_shiftLeft]
  rfl

/-- The loop of `MergeBlock` absorbs free buddies until there is none. -/
theorem mergeLoop (build : Build) (room : ℕ) (books : Books s pool lists live)
    (typed : Typed s lists ∅) (member : b ∈ live) (size : b.order + room = kMaxOrder) :
    ∃ s' lists' c, (mergeLoop build room b.base b.order).run s =
        .ok (c.base, c.order) s' ∧
      Absorbed s s' pool lists lists' live b c ∧
      (c.order < kMaxOrder → c.buddy ∉ blocksOf lists') := by
  induction room generalizing s lists live b with
  | zero =>
    refine ⟨s, lists, b, rfl, Absorbed.refl books typed member, ?_⟩
    intro below
    exact absurd size (Nat.ne_of_lt below)
  | succ room ih =>
    unfold BuddyPmm.mergeLoop
    rw [getBuddyPfn_base, run_get_bind]
    by_cases outside : b.buddy.base ≥ s.pmt.totalPages
    · refine ⟨s, lists, b, ?_, Absorbed.refl books typed member, ?_⟩
      · rw [if_pos outside]
        rfl
      · intro _ free
        exact absurd (books.free_inside free b.buddy.base_mem_pages) (Nat.not_lt.mpr outside)
    · have bound : b.buddy.base < s.pmt.numPageFrames := Nat.lt_of_not_le outside
      rw [if_neg outside, run_bind (run_getPageMeta bound),
        run_bind run_load, run_bind run_load]
      by_cases free : b.buddy ∈ blocksOf lists
      · obtain ⟨middle, lists', removed, step⟩ :=
          books.absorb typed member free (by omega)
        obtain ⟨s', lists'', c, ran, rest, alone⟩ := ih step.books step.typed
          (Set.mem_insert _ _) (by change b.order + 1 + room = kMaxOrder; omega)
        refine ⟨s', lists'', c, ?_, step.trans rest, alone⟩
        rw [if_pos ((books.buddy_free_iff typed bound).mpr free),
          run_bind removed]
        exact ran
      · refine ⟨s, lists, b, ?_, Absorbed.refl books typed member, fun _ => free⟩
        rw [if_neg (fun read => free ((books.buddy_free_iff typed bound).mp read))]
        rfl

variable (books : Books s pool lists live) (member : b ∈ live)
  (order : (s.metaAt b.base).order = b.order)
include books member order

/-- `MergeBlock` absorbs all free buddies and records the order reached. -/
theorem mergeBlock (build : Build) (typed : Typed s lists ∅) :
    ∃ middle lists' c, (mergeBlock build b.base).run s =
        .ok c.base (middle.setMeta c.base { middle.metaAt c.base with order := c.order }) ∧
      Absorbed s middle pool lists lists' live b c ∧
      (c.order < kMaxOrder → c.buddy ∉ blocksOf lists') := by
  have size : b.order + (kMaxOrder - b.order) = kMaxOrder :=
    Nat.add_sub_cancel' (books.order_le member)
  obtain ⟨middle, lists', c, ran, absorbed, alone⟩ := books.mergeLoop build _ typed member size
  have inside := absorbed.books.live_inside (Set.mem_insert c _) c.base_mem_pages
  refine ⟨middle, lists', c, ?_, absorbed, alone⟩
  unfold BuddyPmm.mergeBlock
  rw [run_bind run_load, order,
    run_bind (run_getPageFrameNumber (books.live_inside member b.base_mem_pages)),
    run_bind ran]
  simp only [run_bind (run_getPageMeta inside)]
  rfl

/-- `Free` of the head of a live block gives its pages back to the free side. -/
theorem free (build : Build) (typed : Typed s lists ∅)
    (tagged : (s.metaAt b.base).type = .allocated) :
    ∃ s' lists', (free build (pageFrameAddr b.base)).run s = .ok () s' ∧
      Freed s s' pool lists lists' live b := by
  obtain ⟨middle, lists', c, merged, absorbed, alone⟩ := books.mergeBlock member order build typed
  have fresh := absorbed.books.live_fresh (Set.mem_insert c _) c.base_mem_pages
  have attached := absorbed.books.tiling.attach (Set.mem_insert c _) alone
  rw [Set.insert_sdiff_self_of_notMem absorbed.fresh] at attached
  let recorded := middle.setMeta c.base { middle.metaAt c.base with order := c.order }
  have order' : (recorded.metaAt c.base).order = c.order :=
    congrArg PageMeta.order (metaAt_setMeta.trans (if_pos rfl))
  obtain ⟨s', pushed, freelists, frame, types⟩ := absorbed.books.freelists.pushFresh build
    (recorded.setMeta c.base ((recorded.metaAt c.base).initBuddy c.order))
    (absorbed.books.order_le (Set.mem_insert c _)) fresh rfl
    ((Frame.setMeta.trans Frame.setMeta).mono (Set.union_self _).subset)
    (congrArg PageMeta.type (metaAt_setMeta.trans (if_pos rfl)))
    (congrArg PageMeta.order (metaAt_setMeta.trans (if_pos rfl)))
  refine ⟨s', update lists' c.order (c.base :: lists' c.order), ?_,
    ⟨⟨freelists, ?_, ?_⟩, ?_, ?_, ?_, ?_⟩⟩
  · unfold BuddyPmm.free
    rw [run_bind (run_pageFrameNumber_pageFrameAddr
        (books.live_inside member b.base_mem_pages)),
      run_bind (run_getPageMeta (books.live_inside member b.base_mem_pages)),
      run_bind run_load, run_bind (run_rAssertTrue tagged),
      run_bind merged, run_bind run_load,
      run_bind run_load]
    rw [order']
    exact pushed
  · rw [blocksOf_push]
    exact attached
  · rw [frame.numPageFrames]
    exact absorbed.books.inside
  · intro page bound buddy
    rw [members_push]
    by_cases same : page = c.base
    · exact Or.inr (Or.inl same)
    · rw [types page same] at buddy
      rw [frame.numPageFrames] at bound
      exact (absorbed.typed page bound buddy).imp_right Or.inr
  · refine (absorbed.frame.trans frame).mono (Set.union_subset (Set.subset_insert _ _) ?_)
    refine Set.insert_subset ?_ (absorbed.listed.trans (Set.subset_insert _ _))
    exact absorbed.base
  · intro page gone never
    rw [members_push] at gone
    rw [types page (fun same => gone (Or.inl same)), absorbed.frame.elsewhere page never]
  · intro page before gone
    rw [members_push] at gone
    have apart : page ≠ c.base := fun same => gone (Or.inl same)
    rw [types page apart]
    exact absorbed.retired page before (fun listed => gone (Or.inr listed))

/-- `SplitBlock` shrinks a live block to the target order. -/
theorem splitBlock (build : Build) {target : ℕ} (larger : target < b.order) :
    ∃ s' lists', (splitBlock build b.base target).run s = .ok b.base s' ∧
      Books s' pool lists' (insert ⟨b.base, target⟩ (live \ {b})) ∧
      Frame s s' (b.pages ∪ members lists) ∧ members lists ⊆ members lists' ∧
      ∀ page ∉ members lists', (s'.metaAt page).type = (s.metaAt page).type := by
  have inside := books.live_inside member b.base_mem_pages
  obtain ⟨middle, lists', ran, split, frame, grown, types⟩ :=
    books.splitLoop build (b.order - target) member (Nat.add_sub_cancel' larger.le).symm
  have fresh := split.live_fresh (Set.mem_insert _ _) (Block.base_mem_pages ⟨b.base, target⟩)
  refine ⟨middle.setMeta b.base { middle.metaAt b.base with order := target }, lists', ?_,
    split.congr rfl Frame.setMeta (fun page same => same ▸ fresh), ?_, grown, ?_⟩
  · unfold BuddyPmm.splitBlock
    rw [run_bind run_load, order,
      run_bind (run_getPageFrameNumber inside),
      run_bind (run_assertTrue larger), run_bind ran,
      run_bind (run_getPageMeta (frame.numPageFrames ▸ inside))]
    rfl
  · refine (frame.trans Frame.setMeta).mono (Set.union_subset ?_ ?_)
    · exact Set.union_subset_union_left _ Set.sdiff_subset
    · exact Set.singleton_subset_iff.mpr (Or.inl b.base_mem_pages)
  · intro page unlisted
    rw [← types page unlisted]
    by_cases same : page = b.base
    · rw [metaAt_setMeta, if_pos same, same]
    · rw [metaAt_setMeta, if_neg same]

end Books

/-- `Alloc` took the block `c` out of the free side. -/
structure Taken (s s' : BuddyPmm) (pool : Set ℕ) (lists lists' : ℕ → List ℕ)
    (live : Set Block) (c : Block) : Prop where
  books : Books s' pool lists' (insert c live)
  typed : Typed s' lists' ∅
  within : c.pages ⊆ Block.area (blocksOf lists)
  listed : members lists ⊆ insert c.base (members lists')
  frame : Frame s s' (Block.area (blocksOf lists))
  kept : ∀ page ∉ members lists', page ≠ c.base → (s'.metaAt page).type = (s.metaAt page).type
  tagged : (s'.metaAt c.base).type = .allocated
  order : (s'.metaAt c.base).order = c.order

namespace Taken

variable {c : Block} (taken : Taken s s' pool lists lists' live c)
include taken

/-- `Alloc` brings no tags but those of free blocks and of the one it takes. -/
theorem type_eq {type : PageMetaType} (now : (s'.metaAt page).type = type)
    (notFree : type ≠ .buddy) (notHeld : type ≠ .allocated) : (s.metaAt page).type = type := by
  have unlisted := taken.books.freelists.notMem_members (now ▸ notFree)
  refine (taken.kept page unlisted fun same => notHeld ?_).symm.trans now
  rw [← now, same, taken.tagged]

/-- The heads of the live blocks are kept. -/
theorem metaAt_eq (books : Books s pool lists live) (member : b ∈ live) :
    s'.metaAt b.base = s.metaAt b.base :=
  taken.frame.elsewhere b.base (books.tiling.live_not_in_area member b.base_mem_pages)

theorem inside : c.base < s'.pmt.numPageFrames :=
  taken.books.live_inside (Set.mem_insert _ _) c.base_mem_pages

end Taken

namespace Books

variable (books : Books s pool lists live) (typed : Typed s lists ∅)
include books typed

/-- Taking the head of a freelist off and splitting it down to the order. -/
theorem carve (build : Build) {order : ℕ} (member : b ∈ blocksOf lists) (fits : order ≤ b.order) :
    ∃ s' lists', EStateM.run (do
        listRemove build b.base
        if b.order > order then BuddyPmm.splitBlock build b.base order else pure b.base) s =
        .ok b.base s' ∧
      Books s' pool lists' (insert ⟨b.base, order⟩ live) ∧ Typed s' lists' {b.base} ∧
      Frame s s' (Block.area (blocksOf lists)) ∧ members lists \ {b.base} ⊆ members lists' ∧
      ∀ page ∉ members lists', (s'.metaAt page).type = (s.metaAt page).type := by
  have listed : b.base ∈ lists b.order := member
  have distinct := (books.freelists.linked _ (books.freelists.bounded _ _ listed)).nodup
  obtain ⟨middle, removed, freelists, relinked⟩ := books.freelists.listRemove build listed
  have remaining := members_remove books.freelists listed
  have detached : Books middle pool
      (update lists b.order ((lists b.order).erase b.base)) (insert b live) := by
    refine ⟨freelists, ?_, ?_⟩
    · rw [blocksOf_remove distinct]
      exact books.tiling.detach member
    · rw [relinked.numPageFrames]
      exact books.inside
  have inTransit : Typed middle
      (update lists b.order ((lists b.order).erase b.base)) {b.base} := by
    intro page bound tagged
    rw [relinked.numPageFrames] at bound
    rw [relinked.sameType] at tagged
    rw [remaining]
    by_cases same : page = b.base
    · exact Or.inl same
    · exact Or.inr ⟨(typed page bound tagged).resolve_left id, same⟩
  by_cases larger : b.order > order
  · have tagOrder : (middle.metaAt b.base).order = b.order :=
      (relinked.sameOrder b.base).trans (books.freelists.tagged _ _ listed).2
    obtain ⟨s', lists', ran, split, frame, grown, types⟩ :=
      detached.splitBlock (Set.mem_insert b live) tagOrder build larger
    rw [Set.insert_sdiff_self_of_notMem (books.tiling.not_live member)] at split
    refine ⟨s', lists', ?_, split, ?_, ?_, remaining ▸ grown, ?_⟩
    · rw [run_bind removed, if_pos larger]
      exact ran
    · intro page bound tagged
      by_cases unlisted : page ∈ members lists'
      · exact Or.inr unlisted
      · rw [types page unlisted] at tagged
        rw [frame.numPageFrames] at bound
        exact (inTransit page bound tagged).imp_right (fun before => grown before)
    · refine (relinked.frame.trans frame).mono (Set.union_subset members_subset_area ?_)
      refine Set.union_subset (Block.pages_subset_area member) ?_
      rw [remaining]
      exact Set.sdiff_subset.trans members_subset_area
    · intro page unlisted
      rw [types page unlisted, relinked.sameType]
  · have exactFit : (⟨b.base, order⟩ : Block) = b := by
      rw [le_antisymm fits (Nat.le_of_not_lt larger)]
    rw [exactFit]
    refine ⟨middle, _, ?_, detached, inTransit, relinked.frame.mono members_subset_area,
      remaining.symm.subset, ?_⟩
    · rw [run_bind removed, if_neg larger]
      rfl
    · intro page _
      exact relinked.sameType page

/-- `Alloc` takes a block of the wanted order from the lower end of a free block. -/
theorem takeBlock (build : Build) {order : ℕ} (member : b ∈ blocksOf lists)
    (fits : order ≤ b.order) :
    ∃ s' lists', (takeBlock build order b.order b.base).run s =
        .ok (pageFrameAddr b.base) s' ∧
      Taken s s' pool lists lists' live ⟨b.base, order⟩ := by
  obtain ⟨middle, lists', ran, carved, inTransit, frame, grown, types⟩ :=
    books.carve typed build member fits
  have own := Block.base_mem_pages ⟨b.base, order⟩
  have fresh := carved.live_fresh (Set.mem_insert _ _) own
  have inside : b.base < (middle.setMeta b.base
      ((middle.metaAt b.base).initAllocated order)).pmt.numPageFrames :=
    carved.live_inside (Set.mem_insert _ _) own
  have stored : ∀ page, (middle.setMeta b.base
      ((middle.metaAt b.base).initAllocated order)).metaAt page =
        if page = b.base then (middle.metaAt b.base).initAllocated order else middle.metaAt page :=
    fun page => metaAt_setMeta
  refine ⟨middle.setMeta b.base ((middle.metaAt b.base).initAllocated order), lists', ?_,
    ⟨?_, ?_, ?_, ?_, ?_, ?_, ?_, ?_⟩⟩
  · obtain ⟨first, state, removed, rest⟩ := run_bind_eq_ok ran
    unfold BuddyPmm.takeBlock
    rw [run_bind removed, run_bind rest, run_bind run_load,
      run_bind run_store, run_bind (run_getPageFrameNumber inside)]
    rfl
  · exact carved.congr rfl Frame.setMeta (fun page same => same ▸ fresh)
  · intro page bound tagged
    rw [stored] at tagged
    by_cases same : page = b.base
    · rw [if_pos same] at tagged
      cases tagged
    · rw [if_neg same] at tagged
      exact Or.inr ((inTransit page bound tagged).resolve_left same)
  · refine Set.Subset.trans ?_ (Block.pages_subset_area member)
    exact Set.Ico_subset_Ico_right (Nat.add_le_add_left (Nat.pow_le_pow_right Nat.two_pos fits) _)
  · intro page before
    by_cases same : page = b.base
    · exact Or.inl same
    · exact Or.inr (grown ⟨before, same⟩)
  · refine (frame.trans Frame.setMeta).mono (Set.union_subset subset_rfl ?_)
    exact Set.singleton_subset_iff.mpr (Block.pages_subset_area member b.base_mem_pages)
  · intro page unlisted apart
    rw [stored, if_neg apart]
    exact types page unlisted
  · rw [stored, if_pos rfl]
    rfl
  · rw [stored, if_pos rfl]
    rfl

/-- The loop of `Alloc` takes the first block it meets, and fails when there is none. -/
theorem allocLoop (build : Build) {order : ℕ} (count : ℕ) {currentOrder : ℕ}
    (fits : order ≤ currentOrder) (left : currentOrder + count = kMaxOrder + 1) :
    (∃ s' lists' page, (allocLoop build order count currentOrder).run s =
        .ok (.ok (pageFrameAddr page)) s' ∧ Taken s s' pool lists lists' live ⟨page, order⟩) ∨
      (allocLoop build order count currentOrder).run s =
        .ok (.error .outOfMemory) s ∧ ∀ b ∈ blocksOf lists, b.order < currentOrder := by
  induction count generalizing currentOrder with
  | zero =>
    refine Or.inr ⟨rfl, ?_⟩
    intro b member
    have bound := books.tiling.partition.order_le b (Or.inl member)
    omega
  | succ count ih =>
    have bound : currentOrder ≤ kMaxOrder := by omega
    unfold BuddyPmm.allocLoop
    rw [run_get_bind]
    cases found : s.freelistTable currentOrder with
    | none =>
      rcases ih (fits.trans (Nat.le_succ _)) (by omega) with taken | ⟨failed, small⟩
      · exact Or.inl taken
      · refine Or.inr ⟨failed, ?_⟩
        intro b member
        have empty : lists currentOrder = [] :=
          (books.freelists.linked currentOrder bound).nil_iff.mpr found
        have apart : b.order ≠ currentOrder := by
          intro same
          have listed : b.base ∈ lists b.order := member
          rw [same, empty] at listed
          cases listed
        exact lt_of_le_of_ne (Nat.lt_succ_iff.mp (small b member)) apart
    | some page =>
      have member : (⟨page, currentOrder⟩ : Block) ∈ blocksOf lists :=
        books.freelists.head_mem bound found
      obtain ⟨s', lists', ran, taken⟩ := books.takeBlock typed build member fits
      refine Or.inl ⟨s', lists', page, ?_, taken⟩
      simp only [run_bind ran]
      rfl

/-- `Alloc` takes a block exactly when some free block is large enough. -/
theorem alloc (build : Build) {order : ℕ} (bound : order ≤ kMaxOrder) :
    (∃ s' lists' page, (alloc build order).run s = .ok (.ok (pageFrameAddr page)) s' ∧
        Taken s s' pool lists lists' live ⟨page, order⟩) ∨
      (alloc build order).run s = .ok (.error .outOfMemory) s ∧
        ∀ b ∈ blocksOf lists, b.order < order := by
  unfold BuddyPmm.alloc
  rw [if_neg (Nat.not_lt.mpr bound)]
  exact books.allocLoop typed build _ le_rfl (Nat.add_sub_of_le (bound.trans (Nat.le_succ _)))

/-- `Alloc` of any order takes a block or changes nothing. -/
theorem alloc_cases (build : Build) (order : ℕ) :
    (∃ s' lists' page, (BuddyPmm.alloc build order).run s = .ok (.ok (pageFrameAddr page)) s' ∧
        Taken s s' pool lists lists' live ⟨page, order⟩) ∨
      ∃ error, (BuddyPmm.alloc build order).run s = .ok (.error error) s := by
  by_cases bound : order ≤ kMaxOrder
  · exact (books.alloc typed build bound).imp_right fun failed => ⟨_, failed.1⟩
  · refine Or.inr ⟨.invalidArgument, ?_⟩
    unfold BuddyPmm.alloc
    rw [if_pos (Nat.lt_of_not_le bound)]
    rfl

/-- `Alloc` succeeds when an aligned range is free: the range lies in one free block. -/
theorem alloc_of_range (build : Build) (aligned : b.Aligned) (bound : b.order ≤ kMaxOrder)
    (inside : b.pages ⊆ Block.area (blocksOf lists)) :
    ∃ s' lists' page, (BuddyPmm.alloc build b.order).run s =
        .ok (.ok (pageFrameAddr page)) s' ∧ Taken s s' pool lists lists' live ⟨page, b.order⟩ := by
  rcases books.alloc typed build bound with taken | ⟨_, small⟩
  · exact taken
  · obtain ⟨c, member, superset⟩ := books.tiling.exists_free_superset aligned bound inside
    exact absurd (Block.order_le_of_subset superset) (Nat.not_le.mpr (small c member))

end Books

end AlkOS.Mem.BuddyPmm
