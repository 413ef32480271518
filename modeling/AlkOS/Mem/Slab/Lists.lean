import AlkOS.Mem.Buddy.Lists
import AlkOS.Mem.Slab.Basic

/-!
# The lists of slabs

The three lists of every cache form one family of intrusive lists over the
links in the page metadata. `AddTo*`, `RemoveFromList` and `MoveTo*` change
links and list heads and nothing else.
-/

namespace AlkOS.Mem

open Kernel IntrusiveList

namespace SlabHeap

variable {build : Build} {s s' s'' : SlabHeap} {page other self : ℕ} {value : PageMeta}
  {cache : KmemCache}

@[simp] theorem metaAt_setMeta :
    (s.setMeta page value).metaAt other = if other = page then value else s.metaAt other :=
  BuddyPmm.metaAt_setMeta

@[simp] theorem run_load : (load page).run s = .ok (s.metaAt page) s := rfl

@[simp] theorem run_store : (store page value).run s = .ok () (s.setMeta page value) := rfl

theorem run_asSlab (tagged : (s.metaAt page).type = .slab) :
    (asSlab build page).run s = .ok () s := by
  exact run_assertTrue tagged

/-- A call into the buddy allocator that returns. -/
theorem run_onBuddy_of_ok {α : Type} {run : Kernel BuddyPmm α} {result : α} {buddy : BuddyPmm}
    (returned : EStateM.run run s.buddy = .ok result buddy) :
    (onBuddy run).run s = .ok result { s with buddy := buddy } :=
  run_zoom_of_ok returned

/-- The `next` links of all frames. -/
def next (s : SlabHeap) (page : ℕ) : Option ℕ := (s.metaAt page).next

/-- The `prev` links of all frames. -/
def prev (s : SlabHeap) (page : ℕ) : Option ℕ := (s.metaAt page).prev

/-- The heads of the lists of all caches. -/
def heads (s : SlabHeap) (list : ℕ × SlabList) : Option ℕ := (s.caches list.1).slabs list.2

/-- `s'` and `s` differ at most in links of frames in `touched` and in list heads. -/
structure Relinked (s s' : SlabHeap) (touched : Set ℕ) : Prop where
  table : s'.buddy.freelistTable = s.buddy.freelistTable
  numPageFrames : s'.buddy.pmt.numPageFrames = s.buddy.pmt.numPageFrames
  memory : s'.memory = s.memory
  caches : ∀ c, s'.caches c = { s.caches c with slabs := (s'.caches c).slabs }
  onlyLinks : ∀ page, s'.metaAt page =
    { s.metaAt page with next := s'.next page, prev := s'.prev page }
  elsewhere : ∀ page ∉ touched, s'.metaAt page = s.metaAt page

namespace Relinked

variable {touched touched' : Set ℕ}

theorem trans (first : Relinked s s' touched) (second : Relinked s' s'' touched) :
    Relinked s s'' touched := by
  refine ⟨second.table.trans first.table, second.numPageFrames.trans first.numPageFrames,
    second.memory.trans first.memory, ?_, ?_, ?_⟩
  · intro c
    rw [second.caches c, first.caches c]
  · intro page
    rw [second.onlyLinks page, first.onlyLinks page]
  · intro page outside
    rw [second.elsewhere page outside, first.elsewhere page outside]

theorem mono (relinked : Relinked s s' touched) (subset : touched ⊆ touched') :
    Relinked s s' touched' :=
  { relinked with elsewhere := fun page outside =>
      relinked.elsewhere page fun inside => outside (subset inside) }

theorem sameType (relinked : Relinked s s' touched) (page : ℕ) :
    (s'.metaAt page).type = (s.metaAt page).type := by rw [relinked.onlyLinks page]

end Relinked

end SlabHeap

namespace KmemCache

open SlabHeap

variable {build : Build} {s : SlabHeap} {self slab : ℕ} {list : SlabList}
  {lists : ℕ × SlabList → List ℕ}

@[simp] theorem run_loadCache : (loadCache self).run s = .ok (s.caches self) s := rfl

@[simp] theorem run_update {change : KmemCache → KmemCache} :
    (update self change).run s = .ok () (s.setCache self (change (s.caches self))) := rfl

/-- The slabs on any list. -/
def listed (lists : ℕ × SlabList → List ℕ) : Set ℕ := { slab | ∃ key, slab ∈ lists key }

/-- The lists of all caches as the links spell them out. -/
structure Shelves (s : SlabHeap) (lists : ℕ × SlabList → List ℕ) : Prop where
  family : Family s.next s.prev s.heads lists
  tagged : ∀ key, ∀ slab ∈ lists key, (s.metaAt slab).type = .slab

theorem heads_setHead {head : Option ℕ} (s : SlabHeap) :
    (s.setCache self ((s.caches self).setHead list head)).heads =
      Function.update s.heads (self, list) head := by
  funext ⟨c, l⟩
  unfold heads setCache setHead
  by_cases sameCache : c = self
  · subst sameCache
    simp only [Function.update_self, Function.update_apply, Prod.mk.injEq, true_and]
  · simp only [Function.update_apply, Prod.mk.injEq, sameCache, false_and, ↓reduceIte]

theorem caches_setHead {head : Option ℕ} (s : SlabHeap) (c : ℕ) :
    (s.setCache self ((s.caches self).setHead list head)).caches c =
      { s.caches c with
        slabs := ((s.setCache self ((s.caches self).setHead list head)).caches c).slabs } := by
  unfold setCache setHead
  simp only [Function.update_apply]
  split_ifs with same
  · rw [same]
  · rfl

/-- What `AddTo*` does to every frame's metadata. -/
theorem run_addTo (self : ℕ) (list : SlabList)
    (tagged : (s.metaAt slab).type = .slab)
    (headTagged : ∀ first, (s.caches self).slabs list = some first →
      first ≠ slab ∧ (s.metaAt first).type = .slab) :
    ∃ s' : SlabHeap, (addTo list build self slab).run s =
        .ok () (s'.setCache self ((s'.caches self).setHead list (some slab))) ∧
      s'.buddy.freelistTable = s.buddy.freelistTable ∧
      s'.buddy.pmt.numPageFrames = s.buddy.pmt.numPageFrames ∧
      s'.memory = s.memory ∧ s'.caches = s.caches ∧
      ∀ frame, s'.metaAt frame = s.buddy.pushedMeta slab ((s.caches self).slabs list) frame := by
  unfold addTo
  rw [run_bind (run_asSlab tagged), run_bind run_loadCache]
  cases found : (s.caches self).slabs list with
  | none =>
    refine ⟨_, rfl, rfl, rfl, rfl, rfl, ?_⟩
    intro frame
    by_cases same : frame = slab
    · subst same
      simp only [metaAt_setMeta, BuddyPmm.pushedMeta]
      rfl
    · simp only [metaAt_setMeta, BuddyPmm.pushedMeta, same]
      rfl
  | some first =>
    obtain ⟨apart, headSlab⟩ := headTagged first found
    have stillSlab : (((s.setMeta slab { s.metaAt slab with next := some first }).setMeta slab
        { (s.setMeta slab { s.metaAt slab with next := some first }).metaAt slab with
          prev := none }).metaAt first).type = .slab := by
      rw [metaAt_setMeta, if_neg apart, metaAt_setMeta, if_neg apart]
      exact headSlab
    simp only [EStateM.run_bind, run_load, run_store, run_asSlab stillSlab]
    refine ⟨_, rfl, rfl, rfl, rfl, rfl, ?_⟩
    intro frame
    by_cases same : frame = slab
    · subst same
      simp only [metaAt_setMeta, BuddyPmm.pushedMeta, Ne.symm apart]
      rfl
    · by_cases heads : frame = first
      · subst heads
        simp only [metaAt_setMeta, BuddyPmm.pushedMeta, same]
        rfl
      · have notHead : some first ≠ some frame := fun eq => heads (Option.some.inj eq).symm
        simp only [metaAt_setMeta, BuddyPmm.pushedMeta, same, heads, notHead]
        rfl

theorem heads_congr {s s' : SlabHeap} (same : s'.caches = s.caches) : s'.heads = s.heads := by
  unfold heads
  rw [same]

namespace Shelves

/-- `AddTo*` puts an unlisted slab in front of one list. -/
theorem addTo (build : Build) (list : SlabList) (self : ℕ) (shelves : Shelves s lists)
    (tagged : (s.metaAt slab).type = .slab) (fresh : ∀ key, slab ∉ lists key) :
    ∃ s', (addTo list build self slab).run s = .ok () s' ∧
      Shelves s' (Function.update lists (self, list) (slab :: lists (self, list))) ∧
      Relinked s s' (insert slab (listed lists)) := by
  have headListed : ∀ first, (s.caches self).slabs list = some first → first ∈ lists (self, list) :=
    fun first heads => shelves.family.head_mem heads
  obtain ⟨s', ran, table, total, memory, caches, metas⟩ :=
    run_addTo self list tagged fun first heads =>
      ⟨fun same => fresh (self, list) (same ▸ headListed first heads),
        shelves.tagged _ first (headListed first heads)⟩
  refine ⟨_, ran, ⟨?_, ?_⟩, table, total, memory, ?_, ?_, ?_⟩
  · rw [heads_setHead, heads_congr caches]
    exact shelves.family.push (self, list) fresh
      (fun frame => congrArg PageMeta.next (metas frame))
      fun frame => congrArg PageMeta.prev (metas frame)
  · intro key frame member
    change (s'.metaAt frame).type = _
    rw [metas frame]
    rcases Family.mem_pushed.mp member with before | ⟨_, rfl⟩
    · exact shelves.tagged key frame before
    · exact tagged
  · intro c
    rw [caches_setHead, caches]
  · intro frame
    change s'.metaAt frame = { s.metaAt frame with
      next := (s'.metaAt frame).next, prev := (s'.metaAt frame).prev }
    rw [metas frame]
    rfl
  · intro frame outside
    have notSlab : frame ≠ slab := fun same => outside (Or.inl same)
    have notHead : (s.caches self).slabs list ≠ some frame := fun heads =>
      outside (Or.inr ⟨_, headListed frame heads⟩)
    change s'.metaAt frame = _
    rw [metas frame]
    simp only [BuddyPmm.pushedMeta, notSlab, notHead]
    rfl

end Shelves

section

variable (shelves : Shelves s lists) (member : slab ∈ lists (self, list))
include shelves member

/-- `RemoveFromList` guesses the list of a slab without predecessor right. -/
theorem headedBy_eq (first : s.prev slab = none) : (s.caches self).headedBy slab = some list := by
  have heads : ∀ l, (s.caches self).slabs l = some slab ↔ l = list := by
    intro l
    have known := shelves.family.head_iff (j := (self, l)) member
    rw [Prod.mk.injEq, eq_self, true_and, and_iff_left first] at known
    exact known
  simp only [headedBy, heads]
  cases list with
  | partly => rfl
  | full => rfl
  | free => rfl

/-- What led to the slab leads past it. -/
theorem run_bypassForward :
    ∃ s' : SlabHeap, (bypassForward build self slab).run s = .ok () s' ∧
      s'.buddy.freelistTable = s.buddy.freelistTable ∧
      s'.buddy.pmt.numPageFrames = s.buddy.pmt.numPageFrames ∧ s'.memory = s.memory ∧
      s'.caches = (s.setCache self ((s.caches self).setHead list
        (if s.heads (self, list) = some slab then s.next slab else s.heads (self, list)))).caches ∧
      ∀ frame, s'.metaAt frame = { s.metaAt frame with
        next := if s.prev slab = some frame then s.next slab else s.next frame } := by
  have onlyHead := shelves.family.head_iff (j := (self, list)) member
  rw [eq_self, true_and] at onlyHead
  unfold bypassForward
  rw [run_bind run_load]
  cases found : (s.metaAt slab).prev with
  | none =>
    have first : s.prev slab = none := found
    refine ⟨_, run_update, rfl, rfl, rfl, ?_, ?_⟩
    · rw [if_pos (onlyHead.mpr first), headedBy_eq shelves member first]
      rfl
    · intro frame
      rw [first]
      rfl
  | some before =>
    have back : s.prev slab = some before := found
    obtain ⟨listedBefore, _⟩ := shelves.family.prev_mem member back
    have notHead : s.heads (self, list) ≠ some slab := fun heads => by
      rw [onlyHead.mp heads] at back
      cases back
    simp only [EStateM.run_bind, run_asSlab (shelves.tagged _ before listedBefore)]
    refine ⟨_, rfl, rfl, rfl, rfl, ?_, ?_⟩
    · rw [if_neg notHead]
      unfold setCache setHead heads
      rw [Function.update_eq_self, Function.update_eq_self]
      rfl
    · exact fun frame => back ▸ s.buddy.metaAt_setMeta_next before frame (s.next slab)

omit shelves member in
/-- The successor leads back past the slab. -/
theorem run_bypassBackward (s : SlabHeap) (slab : ℕ)
    (nextTagged : ∀ node, s.next slab = some node → (s.metaAt node).type = .slab) :
    ∃ s' : SlabHeap, (bypassBackward build slab).run s = .ok () s' ∧
      s'.buddy.freelistTable = s.buddy.freelistTable ∧
      s'.buddy.pmt.numPageFrames = s.buddy.pmt.numPageFrames ∧ s'.memory = s.memory ∧
      s'.caches = s.caches ∧
      ∀ frame, s'.metaAt frame = { s.metaAt frame with
        prev := if s.next slab = some frame then s.prev slab else s.prev frame } := by
  unfold bypassBackward
  rw [run_bind run_load]
  cases found : (s.metaAt slab).next with
  | none =>
    refine ⟨s, rfl, rfl, rfl, rfl, rfl, ?_⟩
    intro frame
    simp only [SlabHeap.next, found, reduceCtorEq, ↓reduceIte, SlabHeap.prev]
  | some node =>
    simp only [EStateM.run_bind, run_asSlab (nextTagged node found)]
    have link : s.next slab = some node := found
    exact ⟨_, rfl, rfl, rfl, rfl, rfl, fun frame =>
      link ▸ s.buddy.metaAt_setMeta_prev node frame (s.prev slab)⟩

/-- What `RemoveFromList` does to every frame's metadata. -/
theorem run_removeFromList :
    ∃ s' : SlabHeap, (removeFromList build self slab).run s = .ok () s' ∧
      s'.buddy.freelistTable = s.buddy.freelistTable ∧
      s'.buddy.pmt.numPageFrames = s.buddy.pmt.numPageFrames ∧ s'.memory = s.memory ∧
      s'.caches = (s.setCache self ((s.caches self).setHead list
        (if s.heads (self, list) = some slab then s.next slab else s.heads (self, list)))).caches ∧
      ∀ frame, s'.metaAt frame = s.buddy.unlinkedMeta slab frame := by
  obtain ⟨first, firstRun, firstTable, firstTotal, firstMemory, firstCaches, firstMeta⟩ :=
    run_bypassForward shelves member
  have ownPrev : s.prev slab ≠ some slab := fun link => (shelves.family.prev_mem member link).2 rfl
  have ownNext : s.next slab ≠ some slab := fun link => (shelves.family.next_mem member link).2 rfl
  have firstNext : first.next slab = s.next slab := by
    unfold SlabHeap.next
    rw [firstMeta slab]
    exact if_neg ownPrev
  have firstPrev : ∀ frame, first.prev frame = s.prev frame := by
    intro frame
    unfold SlabHeap.prev
    rw [firstMeta frame]
  obtain ⟨second, secondRun, secondTable, secondTotal, secondMemory, secondCaches, secondMeta⟩ :=
    run_bypassBackward first slab (fun node link => by
      rw [firstMeta node]
      exact shelves.tagged _ node (shelves.family.next_mem member (firstNext ▸ link)).1)
  unfold removeFromList
  rw [run_bind (run_asSlab (shelves.tagged _ slab member)),
    run_bind firstRun, run_bind secondRun]
  simp only [EStateM.run_bind, run_load, run_store]
  refine ⟨_, rfl, secondTable.trans firstTable, secondTotal.trans firstTotal,
    secondMemory.trans firstMemory, secondCaches.trans firstCaches, ?_⟩
  intro frame
  by_cases same : frame = slab
  · subst same
    simp only [metaAt_setMeta, ↓reduceIte, BuddyPmm.unlinkedMeta, secondMeta, firstMeta]
    rfl
  · simp only [metaAt_setMeta, same, ↓reduceIte, BuddyPmm.unlinkedMeta, secondMeta, firstNext,
      firstPrev, firstMeta]
    rfl

end

namespace Shelves

/-- `RemoveFromList` takes a slab off the list it is on. -/
theorem removeFromList (build : Build) (shelves : Shelves s lists)
    (member : slab ∈ lists (self, list)) :
    ∃ s', (removeFromList build self slab).run s = .ok () s' ∧
      Shelves s' (Function.update lists (self, list) ((lists (self, list)).erase slab)) ∧
      Relinked s s' (listed lists) := by
  obtain ⟨s', ran, table, total, memory, caches, metas⟩ := run_removeFromList shelves member
  refine ⟨s', ran, ⟨?_, ?_⟩, table, total, memory, ?_, ?_, ?_⟩
  · rw [heads_congr caches, heads_setHead]
    refine shelves.family.unlink member ?_ ?_
    · intro frame apart
      change (s'.metaAt frame).next = _
      rw [metas frame]
      exact if_neg apart
    · intro frame apart
      change (s'.metaAt frame).prev = _
      rw [metas frame]
      exact if_neg apart
  · intro key frame kept
    rw [metas frame]
    exact shelves.tagged key frame (Family.mem_of_mem_erased kept)
  · intro c
    rw [caches]
    exact caches_setHead s c
  · intro frame
    change s'.metaAt frame = { s.metaAt frame with
      next := (s'.metaAt frame).next, prev := (s'.metaAt frame).prev }
    rw [metas frame]
    rfl
  · intro frame outside
    have notSlab : frame ≠ slab := fun same => outside ⟨_, same ▸ member⟩
    have notNext : s.buddy.next slab ≠ some frame := fun link =>
      outside ⟨_, (shelves.family.next_mem member link).1⟩
    have notPrev : s.buddy.prev slab ≠ some frame := fun link =>
      outside ⟨_, (shelves.family.prev_mem member link).1⟩
    rw [metas frame]
    simp only [BuddyPmm.unlinkedMeta, notSlab, notNext, notPrev]
    rfl

/-- The lists after a slab moved to the front of another list of its cache. -/
def moved (lists : ℕ × SlabList → List ℕ) (self slab : ℕ) (source target : SlabList) :
    ℕ × SlabList → List ℕ :=
  let rest := Function.update lists (self, source) ((lists (self, source)).erase slab)
  Function.update rest (self, target) (slab :: rest (self, target))

/-- `MoveTo*` moves a slab to the front of another list of its cache. -/
theorem moveTo (build : Build) (target : SlabList) (shelves : Shelves s lists)
    (member : slab ∈ lists (self, list)) :
    ∃ s', (moveTo target build self slab).run s = .ok () s' ∧
      Shelves s' (moved lists self slab list target) ∧ Relinked s s' (listed lists) := by
  obtain ⟨middle, removed, off, unlinked⟩ := shelves.removeFromList build member
  have tagged : (middle.metaAt slab).type = .slab := by
    rw [unlinked.sameType]
    exact shelves.tagged _ slab member
  obtain ⟨s', added, on, linked⟩ := off.addTo build target self tagged
    (shelves.family.not_mem_unlinked member)
  refine ⟨s', ?_, on, unlinked.trans (linked.mono ?_)⟩
  · unfold KmemCache.moveTo
    rw [run_bind removed]
    exact added
  · rintro frame (rfl | ⟨key, kept⟩)
    · exact ⟨_, member⟩
    · exact ⟨key, Family.mem_of_mem_erased kept⟩

end Shelves

end KmemCache

end AlkOS.Mem
