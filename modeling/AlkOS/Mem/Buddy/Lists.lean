import AlkOS.Foundation.BlockTiling
import AlkOS.Foundation.IntrusiveList
import AlkOS.Mem.Buddy.Basic

/-!
# The freelists of the buddy allocator

`Freelists s lists` says that the freelist of every order is a well-formed
doubly linked list of block heads tagged with that order. `ListPush` and
`ListRemove` keep it and touch nothing but links.
-/

namespace AlkOS.Mem.BuddyPmm

open Kernel DyadicBlocks IntrusiveList Function

variable {build : Build} {s s' : BuddyPmm} {page other order k : ℕ} {value : PageMeta}
  {lists : ℕ → List ℕ}

@[simp] theorem metaAt_setMeta :
    (s.setMeta page value).metaAt other = if other = page then value else s.metaAt other :=
  Function.update_apply ..

@[simp] theorem metaAt_setHead {head : Option ℕ} :
    (s.setHead order head).metaAt page = s.metaAt page := rfl

@[simp] theorem freelistTable_setMeta :
    (s.setMeta page value).freelistTable = s.freelistTable := rfl

@[simp] theorem numPageFrames_setMeta :
    (s.setMeta page value).pmt.numPageFrames = s.pmt.numPageFrames := rfl

@[simp] theorem run_load : (load page).run s = .ok (s.metaAt page) s := rfl

@[simp] theorem run_store : (store page value).run s = .ok () (s.setMeta page value) := rfl

theorem run_asBuddy (tagged : (s.metaAt page).type = .buddy) :
    (asBuddy build page).run s = .ok page s := by
  unfold asBuddy
  rw [run_bind run_load, run_bind (run_assertTrue tagged)]
  rfl

theorem run_getPageMeta (inside : page < s.pmt.numPageFrames) :
    (getPageMeta build page).run s = .ok page s := by
  unfold getPageMeta
  rw [run_get_bind,
    run_bind (run_guardAccess inside)]
  rfl

theorem run_getPageMeta_of_not (outside : ¬ page < s.pmt.numPageFrames) :
    ∃ panic, (getPageMeta build page).run s = .error panic s := by
  unfold getPageMeta
  rw [run_get_bind]
  obtain ⟨panic, stopped⟩ : ∃ panic, EStateM.run (Kernel.guardAccess build
      (page < s.pmt.numPageFrames) "Page frame number is out of bounds") s = .error panic s :=
    run_guardAccess_of_not s outside
  exact ⟨panic, run_bind_of_error stopped⟩

theorem run_getPageFrameNumber (inside : page < s.pmt.numPageFrames) :
    (getPageFrameNumber build page).run s = .ok page s := by
  unfold getPageFrameNumber
  rw [run_get_bind,
    run_bind (run_assertTrue inside)]
  rfl

/-- The `next` links of all frames. -/
def next (s : BuddyPmm) (page : ℕ) : Option ℕ := (s.metaAt page).next

/-- The `prev` links of all frames. -/
def prev (s : BuddyPmm) (page : ℕ) : Option ℕ := (s.metaAt page).prev

theorem metaAt_setMeta_next (s : BuddyPmm) (node frame : ℕ) (link : Option ℕ) :
    (s.setMeta node { s.metaAt node with next := link }).metaAt frame = { s.metaAt frame with
      next := if some node = some frame then link else s.next frame } := by
  rw [metaAt_setMeta]
  by_cases same : frame = node
  · simp only [same, ↓reduceIte]
  · simp only [same, Ne.symm same, Option.some.injEq, ↓reduceIte, next]

theorem metaAt_setMeta_prev (s : BuddyPmm) (node frame : ℕ) (link : Option ℕ) :
    (s.setMeta node { s.metaAt node with prev := link }).metaAt frame = { s.metaAt frame with
      prev := if some node = some frame then link else s.prev frame } := by
  rw [metaAt_setMeta]
  by_cases same : frame = node
  · simp only [same, ↓reduceIte]
  · simp only [same, Ne.symm same, Option.some.injEq, ↓reduceIte, prev]

/-- The links of a frame after `page` was pushed in front of `head`. -/
def pushedMeta (s : BuddyPmm) (page : ℕ) (head : Option ℕ) (frame : ℕ) : PageMeta :=
  { s.metaAt frame with
    next := if frame = page then head else s.next frame
    prev := if frame = page then none else if head = some frame then some page else s.prev frame }

/-- The links of a frame after `page` was unlinked. -/
def unlinkedMeta (s : BuddyPmm) (page frame : ℕ) : PageMeta :=
  { s.metaAt frame with
    next :=
      if frame = page then none
      else if s.prev page = some frame then s.next page else s.next frame
    prev :=
      if frame = page then none
      else if s.next page = some frame then s.prev page else s.prev frame }

/-- What `ListPush` does to every frame's metadata. -/
theorem run_listPush (tagged : (s.metaAt page).type = .buddy)
    (headTagged : ∀ head, s.freelistTable (s.metaAt page).order = some head →
      head ≠ page ∧ (s.metaAt head).type = .buddy) :
    ∃ s', (listPush build page).run s = .ok () s' ∧
      s'.freelistTable =
        update s.freelistTable (s.metaAt page).order (some page) ∧
      s'.pmt.numPageFrames = s.pmt.numPageFrames ∧
      ∀ frame, s'.metaAt frame =
        s.pushedMeta page (s.freelistTable (s.metaAt page).order) frame := by
  unfold listPush
  rw [run_bind run_load, run_bind (run_asBuddy tagged)]
  cases found : s.freelistTable (s.metaAt page).order with
  | none =>
    simp only [EStateM.run_bind, run_load, run_store, EStateM.run_get, freelistTable_setMeta,
      found]
    refine ⟨_, rfl, rfl, rfl, ?_⟩
    intro frame
    by_cases same : frame = page
    · subst same
      simp only [metaAt_setHead, metaAt_setMeta, pushedMeta, ↓reduceIte]
    · simp only [metaAt_setHead, metaAt_setMeta, pushedMeta, same, ↓reduceIte, next, prev,
        reduceCtorEq]
  | some head =>
    obtain ⟨apart, headBuddy⟩ := headTagged head found
    simp only [EStateM.run_bind, run_load, run_store, EStateM.run_get, freelistTable_setMeta,
      found]
    have stillBuddy : ((s.setMeta page { s.metaAt page with next := some head }).metaAt
        head).type = .buddy := by
      rw [metaAt_setMeta, if_neg apart]
      exact headBuddy
    rw [run_asBuddy stillBuddy]
    refine ⟨_, rfl, rfl, rfl, ?_⟩
    intro frame
    by_cases same : frame = page
    · subst same
      simp only [metaAt_setHead, metaAt_setMeta, pushedMeta, ↓reduceIte, Ne.symm apart]
    · by_cases first : frame = head
      · subst first
        simp only [metaAt_setHead, metaAt_setMeta, pushedMeta, same, ↓reduceIte, next]
      · have notHead : some head ≠ some frame := fun eq => first (Option.some.inj eq).symm
        simp only [metaAt_setHead, metaAt_setMeta, pushedMeta, same, first, notHead, ↓reduceIte,
          next, prev]

/-- The next block's `prev` link skips the block. -/
theorem run_skipBackward (nextTagged : ∀ node, s.next page = some node →
    (s.metaAt node).type = .buddy) :
    ∃ s', (skipBackward build page).run s = .ok () s' ∧
      s'.freelistTable = s.freelistTable ∧ s'.pmt.numPageFrames = s.pmt.numPageFrames ∧
      ∀ frame, s'.metaAt frame = { s.metaAt frame with
        prev := if s.next page = some frame then s.prev page else s.prev frame } := by
  unfold skipBackward
  rw [run_bind run_load]
  cases found : (s.metaAt page).next with
  | none =>
    refine ⟨s, rfl, rfl, rfl, ?_⟩
    intro frame
    simp only [next, found, reduceCtorEq, ↓reduceIte, prev]
  | some node =>
    simp only [EStateM.run_bind, run_asBuddy (nextTagged node found)]
    have link : s.next page = some node := found
    exact ⟨_, rfl, rfl, rfl, fun frame => link ▸ s.metaAt_setMeta_prev node frame (s.prev page)⟩

/-- The previous block's `next` link skips the block. -/
theorem run_skipForward (prevTagged : ∀ node, s.prev page = some node →
    (s.metaAt node).type = .buddy) :
    ∃ s', (skipForward build page).run s = .ok () s' ∧
      s'.freelistTable = s.freelistTable ∧ s'.pmt.numPageFrames = s.pmt.numPageFrames ∧
      ∀ frame, s'.metaAt frame = { s.metaAt frame with
        next := if s.prev page = some frame then s.next page else s.next frame } := by
  unfold skipForward
  rw [run_bind run_load]
  cases found : (s.metaAt page).prev with
  | none =>
    refine ⟨s, rfl, rfl, rfl, ?_⟩
    intro frame
    simp only [prev, found, reduceCtorEq, ↓reduceIte, next]
  | some node =>
    simp only [EStateM.run_bind, run_asBuddy (prevTagged node found)]
    have link : s.prev page = some node := found
    exact ⟨_, rfl, rfl, rfl, fun frame => link ▸ s.metaAt_setMeta_next node frame (s.next page)⟩

/-- Once the neighbours skip a block, `ListRemove` moves the head and clears its links. -/
theorem run_listRemove (tagged : (s.metaAt page).type = .buddy)
    (nextTagged : ∀ node, s.next page = some node →
      node ≠ page ∧ (s.metaAt node).type = .buddy)
    (prevTagged : ∀ node, s.prev page = some node →
      node ≠ page ∧ (s.metaAt node).type = .buddy) :
    ∃ s', (listRemove build page).run s = .ok () s' ∧
      s'.freelistTable = update s.freelistTable (s.metaAt page).order
        (if s.freelistTable (s.metaAt page).order = some page then s.next page
          else s.freelistTable (s.metaAt page).order) ∧
      s'.pmt.numPageFrames = s.pmt.numPageFrames ∧
      ∀ frame, s'.metaAt frame = s.unlinkedMeta page frame := by
  have ownNext : s.next page ≠ some page := fun link => (nextTagged page link).1 rfl
  have ownPrev : s.prev page ≠ some page := fun link => (prevTagged page link).1 rfl
  obtain ⟨first, firstRun, firstTable, firstTotal, firstMeta⟩ :
      ∃ s', (skipBackward build page).run s = .ok () s' ∧ _ :=
    run_skipBackward (fun node link => (nextTagged node link).2)
  have firstOwn : first.metaAt page = s.metaAt page := by
    rw [firstMeta page]
    simp only [ownNext, ↓reduceIte, prev]
  have firstPrev : first.prev page = s.prev page := congrArg PageMeta.prev firstOwn
  have firstNext : ∀ frame, first.next frame = s.next frame := by
    intro frame
    unfold next
    rw [firstMeta frame]
  obtain ⟨second, secondRun, secondTable, secondTotal, secondMeta⟩ :
      ∃ s', (skipForward build page).run first = .ok () s' ∧ _ :=
    run_skipForward (fun node link => by
      rw [firstMeta node]
      exact (prevTagged node (firstPrev ▸ link)).2)
  have secondOwn : second.metaAt page = s.metaAt page := by
    rw [secondMeta page, firstPrev, if_neg ownPrev]
    exact firstOwn
  have table : second.freelistTable = s.freelistTable := secondTable.trans firstTable
  have cleared : ∀ frame,
      (if frame = page then { s.metaAt page with next := none, prev := none }
        else second.metaAt frame) = s.unlinkedMeta page frame := by
    intro frame
    by_cases same : frame = page
    · simp only [same, ↓reduceIte, unlinkedMeta]
    · simp only [same, ↓reduceIte, unlinkedMeta, secondMeta frame, firstMeta frame, firstNext,
        firstPrev]
  unfold listRemove
  rw [run_bind (run_asBuddy tagged), run_bind firstRun,
    run_bind secondRun, run_bind run_load,
    run_get_bind, table]
  by_cases heads : s.freelistTable (s.metaAt page).order = some page
  · simp only [heads, ↓reduceIte, EStateM.run_bind, run_load, EStateM.run_modify,
      metaAt_setHead, secondOwn]
    refine ⟨_, rfl, ?_, secondTotal.trans firstTotal, ?_⟩
    · exact congrArg (update · (s.metaAt page).order (s.next page)) table
    · intro frame
      rw [← cleared frame]
      by_cases same : frame = page <;> simp [same]
  · simp only [heads, ↓reduceIte, EStateM.run_bind, run_load,
      secondOwn]
    refine ⟨_, rfl, ?_, secondTotal.trans firstTotal, ?_⟩
    · rw [update_eq_self]
      exact table
    · intro frame
      rw [← cleared frame]
      by_cases same : frame = page <;> simp [same]

/-- The freelist of every order is `lists`, and its members are tagged as free blocks. -/
structure Freelists (s : BuddyPmm) (lists : ℕ → List ℕ) : Prop where
  linked : ∀ k ≤ kMaxOrder, Linked s.next s.prev none (s.freelistTable k) (lists k)
  bounded : ∀ k, ∀ page ∈ lists k, k ≤ kMaxOrder
  tagged : ∀ k, ∀ page ∈ lists k, (s.metaAt page).type = .buddy ∧ (s.metaAt page).order = k

theorem Freelists.empty (heads : ∀ k ≤ kMaxOrder, s.freelistTable k = none) :
    Freelists s (fun _ => []) where
  linked := heads
  bounded _ _ member := (List.not_mem_nil member).elim
  tagged _ _ member := (List.not_mem_nil member).elim

/-- `s'` and `s` differ at most in freelist heads and in links of frames in `touched`. -/
structure Relinked (s s' : BuddyPmm) (touched : Set ℕ) : Prop where
  numPageFrames : s'.pmt.numPageFrames = s.pmt.numPageFrames
  onlyLinks : ∀ page, s'.metaAt page =
    { s.metaAt page with next := s'.next page, prev := s'.prev page }
  elsewhere : ∀ page ∉ touched, s'.metaAt page = s.metaAt page

namespace Relinked

variable {touched : Set ℕ}

theorem sameType (relinked : Relinked s s' touched) (page : ℕ) :
    (s'.metaAt page).type = (s.metaAt page).type := by rw [relinked.onlyLinks page]

theorem sameOrder (relinked : Relinked s s' touched) (page : ℕ) :
    (s'.metaAt page).order = (s.metaAt page).order := by rw [relinked.onlyLinks page]

end Relinked

/-- The heads of the freelists. -/
def heads (s : BuddyPmm) (k : ℕ) : Option ℕ := if k ≤ kMaxOrder then s.freelistTable k else none

/-- A new head of one list. -/
theorem heads_update {head : Option ℕ} (bound : k ≤ kMaxOrder)
    (table : s'.freelistTable = update s.freelistTable k head) :
    s'.heads = update s.heads k head := by
  funext j
  unfold heads
  rw [table]
  by_cases same : j = k
  · subst same
    rw [update_self, update_self, if_pos bound]
  · rw [update_of_ne same, update_of_ne same]

namespace Freelists

/-- The members of all freelists. -/
def members (lists : ℕ → List ℕ) : Set ℕ := { page | ∃ k, page ∈ lists k }

section

variable (freelists : Freelists s lists)
include freelists

theorem notMem_members (other : (s.metaAt page).type ≠ .buddy) : page ∉ members lists :=
  fun ⟨k, listed⟩ => other (freelists.tagged k page listed).1

theorem order_unique {j : ℕ} (left : page ∈ lists j) (right : page ∈ lists k) : j = k :=
  (freelists.tagged j page left).2.symm.trans (freelists.tagged k page right).2

/-- The freelists form a family. -/
theorem family : Family s.next s.prev s.heads lists := by
  refine ⟨fun k => ?_, freelists.order_unique⟩
  unfold heads
  split
  · exact freelists.linked k ‹_›
  · have none : lists k = [] := List.eq_nil_iff_forall_not_mem.mpr fun page member =>
      ‹¬ k ≤ kMaxOrder› (freelists.bounded k page member)
    rw [none]
    rfl

theorem head_mem (bound : k ≤ kMaxOrder) (first : s.freelistTable k = some page) : page ∈ lists k :=
  freelists.family.head_mem ((if_pos bound).trans first)

theorem next_mem (member : page ∈ lists k) (link : s.next page = some other) :
    other ∈ lists k ∧ other ≠ page :=
  freelists.family.next_mem member link

theorem prev_mem (member : page ∈ lists k) (link : s.prev page = some other) :
    other ∈ lists k ∧ other ≠ page :=
  freelists.family.prev_mem member link

theorem tagged_bounded (member : page ∈ lists k) :
    (s.metaAt page).type = .buddy ∧ (s.metaAt page).order = k ∧ k ≤ kMaxOrder := by
  obtain ⟨type, order⟩ := freelists.tagged k page member
  exact ⟨type, order, freelists.bounded k page member⟩

end

/-- A family whose members are tagged. -/
theorem of_family (family : Family s.next s.prev s.heads lists)
    (tagged : ∀ k, ∀ page ∈ lists k,
      (s.metaAt page).type = .buddy ∧ (s.metaAt page).order = k ∧ k ≤ kMaxOrder) :
    Freelists s lists where
  linked k bound := by
    have linked := family.linked k
    rwa [heads, if_pos bound] at linked
  bounded k page member := (tagged k page member).2.2
  tagged k page member := ⟨(tagged k page member).1, (tagged k page member).2.1⟩

/-- Metadata that keeps links and tags of the members keeps the freelists. -/
theorem congr (freelists : Freelists s lists) (table : s'.freelistTable = s.freelistTable)
    (same : ∀ k, ∀ page ∈ lists k, s'.metaAt page = s.metaAt page) : Freelists s' lists := by
  refine ⟨?_, freelists.bounded, ?_⟩
  · intro k bound
    rw [table]
    exact (freelists.linked k bound).congr
      (fun page member => congrArg PageMeta.next (same k page member))
      (fun page member => congrArg PageMeta.prev (same k page member))
  · intro k page member
    rw [same k page member]
    exact freelists.tagged k page member

/-- `ListPush` puts a tagged block in front of the freelist of its order. -/
theorem listPush (build : Build) (freelists : Freelists s lists) (bound : k ≤ kMaxOrder)
    (tagged : (s.metaAt page).type = .buddy) (order : (s.metaAt page).order = k)
    (fresh : page ∉ members lists) :
    ∃ s', (listPush build page).run s = .ok () s' ∧
      Freelists s' (update lists k (page :: lists k)) ∧
      Relinked s s' (insert page (members lists)) := by
  obtain ⟨s', ran, table, total, metas⟩ :
      ∃ s', (BuddyPmm.listPush build page).run s = .ok () s' ∧ _ :=
    run_listPush tagged (fun head heads => by
      have listed := freelists.head_mem bound (order ▸ heads)
      exact ⟨fun same => fresh ⟨k, same ▸ listed⟩, (freelists.tagged k head listed).1⟩)
  rw [order] at table metas
  have relinked : Relinked s s' (insert page (members lists)) := by
    refine ⟨total, ?_, ?_⟩
    · intro frame
      unfold next prev
      rw [metas frame]
      rfl
    · intro frame outside
      have notPage : frame ≠ page := fun same => outside (Or.inl same)
      have notHead : s.freelistTable k ≠ some frame := fun heads =>
        outside (Or.inr ⟨k, freelists.head_mem bound heads⟩)
      rw [metas frame]
      simp only [pushedMeta, notPage, ↓reduceIte, notHead, next, prev]
  have pushed : Family s'.next s'.prev s'.heads (update lists k (page :: lists k)) := by
    rw [heads_update bound table]
    refine freelists.family.push k (fun j listed => fresh ⟨j, listed⟩) ?_ ?_
    · intro frame
      unfold next heads
      rw [metas frame, if_pos bound]
      rfl
    · intro frame
      unfold prev heads
      rw [metas frame, if_pos bound]
      rfl
  refine ⟨s', ran, of_family pushed ?_, relinked⟩
  intro j frame listed
  rw [relinked.sameType, relinked.sameOrder]
  by_cases same : j = k
  · subst same
    rw [update_self] at listed
    rcases List.mem_cons.mp listed with rfl | before
    · exact ⟨tagged, order, bound⟩
    · exact freelists.tagged_bounded before
  · rw [update_of_ne same] at listed
    exact freelists.tagged_bounded listed

/-- `ListRemove` takes a member out of the freelist of its order. -/
theorem listRemove (build : Build) (freelists : Freelists s lists) (member : page ∈ lists k) :
    ∃ s', (listRemove build page).run s = .ok () s' ∧
      Freelists s' (update lists k ((lists k).erase page)) ∧
      Relinked s s' (members lists) := by
  have bound := freelists.bounded k page member
  obtain ⟨tagged, order⟩ := freelists.tagged k page member
  have nextTagged : ∀ node, s.next page = some node →
      node ≠ page ∧ (s.metaAt node).type = .buddy := by
    intro node link
    obtain ⟨listed, apart⟩ := freelists.next_mem member link
    exact ⟨apart, (freelists.tagged k node listed).1⟩
  have prevTagged : ∀ node, s.prev page = some node →
      node ≠ page ∧ (s.metaAt node).type = .buddy := by
    intro node link
    obtain ⟨listed, apart⟩ := freelists.prev_mem member link
    exact ⟨apart, (freelists.tagged k node listed).1⟩
  obtain ⟨s', ran, table, total, metas⟩ := run_listRemove tagged nextTagged prevTagged
  rw [order] at table
  have relinked : Relinked s s' (members lists) := by
    refine ⟨total, ?_, ?_⟩
    · intro frame
      unfold next prev
      rw [metas frame]
      rfl
    · intro frame outside
      have notPage : frame ≠ page := fun same => outside ⟨k, same ▸ member⟩
      have notNext : s.next page ≠ some frame := fun link =>
        outside ⟨k, (freelists.next_mem member link).1⟩
      have notPrev : s.prev page ≠ some frame := fun link =>
        outside ⟨k, (freelists.prev_mem member link).1⟩
      rw [metas frame]
      unfold unlinkedMeta
      rw [if_neg notPage, if_neg notPrev, if_neg notPage, if_neg notNext]
      rfl
  have unlinked : Family s'.next s'.prev s'.heads
      (update lists k ((lists k).erase page)) := by
    have head : s.freelistTable k = s.heads k := (if_pos bound).symm
    rw [heads_update bound table, head]
    refine freelists.family.unlink member ?_ ?_
    · intro frame apart
      unfold next
      rw [metas frame]
      exact if_neg apart
    · intro frame apart
      unfold prev
      rw [metas frame]
      exact if_neg apart
  refine ⟨s', ran, of_family unlinked ?_, relinked⟩
  intro j frame listed
  rw [relinked.sameType, relinked.sameOrder]
  by_cases same : j = k
  · subst same
    rw [update_self] at listed
    exact freelists.tagged_bounded (List.mem_of_mem_erase listed)
  · rw [update_of_ne same] at listed
    exact freelists.tagged_bounded listed

end Freelists

end AlkOS.Mem.BuddyPmm
