import AlkOS.Mem.Slab.Overflow

/-!
# Detection of double frees

`Free` compares the index of the object with the head of its slab's freelist only. So it
detects that an object is free already exactly when that object was the last one of its
slab to become free.
-/

namespace AlkOS.Mem.KmemCache

open Kernel DyadicBlocks SlabLayout SlabHeap

/-- The panic of the check in `Free`. -/
def doubleFree : Panic := .assertion "Double free detected"

variable {build : Build} {layouts : ℕ → SlabLayout} {w : SlabWorld} {s s' : SlabHeap}
  {lists : ℕ × SlabList → List ℕ} {list : SlabList} {c p i : ℕ}

theorem run_pushFree_of_head
    (first : (s.caches c).headIdx s.memory (s.metaAt p).freelist = i) :
    (pushFree c p i).run s = .error doubleFree s := by
  unfold pushFree
  rw [run_bind run_loadCache, run_bind run_load,
    run_get_bind]
  exact run_bind_of_error (run_rAssertTrue_of_not fun differ => differ first.symm)

/-- Any other index is put in front, whether or not it is on the freelist. -/
theorem run_pushFree_of_ne
    (differ : (s.caches c).headIdx s.memory (s.metaAt p).freelist ≠ i) :
    ∃ s' freelist, (pushFree c p i).run s = .ok () s' ∧ s'.caches = s.caches ∧
      ∀ page, s'.metaAt page = if page = p then { s.metaAt p with freelist := freelist }
        else s.metaAt page := by
  unfold pushFree
  rw [run_bind run_loadCache, run_bind run_load,
    run_get_bind,
    run_bind (run_rAssertTrue (Ne.symm differ))]
  cases off : (s.caches c).isOffSlab with
  | true =>
    refine ⟨_, (s.metaAt p).freelist, rfl, rfl, fun page => ?_⟩
    change s.metaAt page = _
    by_cases here : page = p
    · rw [if_pos here, here]
    · rw [if_neg here]
  | false =>
    refine ⟨_, i, rfl, rfl, fun page => ?_⟩
    rw [metaAt_setMeta]
    rfl

namespace Shelves

theorem congr (shelves : Shelves s lists) (caches : s'.caches = s.caches)
    (metas : ∀ page, (s'.metaAt page).next = (s.metaAt page).next ∧
      (s'.metaAt page).prev = (s.metaAt page).prev ∧
      (s'.metaAt page).type = (s.metaAt page).type) : Shelves s' lists := by
  refine ⟨shelves.family.congr (heads_congr caches) (fun _ page _ => (metas page).1)
    (fun _ page _ => (metas page).2.1), fun key page member => ?_⟩
  rw [(metas page).2.2]
  exact shelves.tagged key page member

/-- The last part of `Free` returns when the slab is on a list, whatever its use count. -/
theorem relist (build : Build) (shelves : Shelves s lists) (member : p ∈ lists (c, list)) :
    ∃ s', (relist build c p).run s = .ok () s' := by
  obtain ⟨toFree, movedFree, _⟩ := shelves.moveTo build .free member
  obtain ⟨toPartial, movedPartial, _⟩ := shelves.moveTo build .partly member
  unfold KmemCache.relist
  rw [run_bind run_loadCache, run_bind run_load]
  by_cases empty : (s.metaAt p).inuse = 0
  · rw [if_pos empty]
    exact ⟨_, (run_bind movedFree).trans run_update⟩
  · rw [if_neg empty]
    by_cases left : (s.metaAt p).inuse = decr (s.caches c).numObjects
    · rw [if_pos left]
      exact ⟨_, (run_bind movedPartial).trans run_update⟩
    · rw [if_neg left]
      exact ⟨s, rfl⟩

end Shelves

/-- `Free` of an index that is not the first of the freelist returns. -/
theorem Sound.run_free_of_ne {pool : Set ℕ} {free chains : ℕ → List ℕ} (build : Build)
    (sound : Sound w layouts pool free chains lists) (slab : w.heap.IsSlab c p)
    (inside : i < (layouts c).numObjects)
    (differ : (w.heap.caches c).headIdx w.heap.memory (w.heap.metaAt p).freelist ≠ i) :
    ∃ s', (KmemCache.free build c (w.heap.object c p i)).run w.heap = .ok () s' := by
  obtain ⟨s₁, freelist, pushed, caches, metas⟩ := run_pushFree_of_ne differ
  obtain ⟨list, member⟩ := (sound.shelved.member c p).mp slab
  rw [sound.stock.run_free build slab inside, run_bind pushed]
  refine Shelves.relist build (s := s₁.setMeta p _)
    (sound.shelved.shelves.congr caches fun page => ?_) member
  rw [metaAt_setMeta, metas, metas]
  by_cases here : page = p
  · rw [if_pos here, if_pos rfl, here]
    exact ⟨rfl, rfl, rfl⟩
  · rw [if_neg here, if_neg here]
    exact ⟨rfl, rfl, rfl⟩

/-- While no use count wraps, `Free` of an object stops at the check for double frees, with nothing
changed, exactly when the object is the first on the freelist of its slab. -/
theorem free_detects_iff {start : SlabWorld} (started : Started build layouts start)
    (run : Run build start w) (slab : w.heap.IsSlab c p)
    (inside : i < (w.heap.caches c).numObjects) :
    (free build c (w.heap.object c p i)).run w.heap = .error doubleFree w.heap ↔
      (w.heap.caches c).headIdx w.heap.memory (w.heap.metaAt p).freelist = i := by
  obtain ⟨pool, free, chains, lists, sound, _⟩ := started.kept run
  rw [sound.stock.layout c] at inside
  constructor
  · intro detected
    by_contra differ
    obtain ⟨s', ran⟩ := sound.run_free_of_ne build slab inside differ
    cases detected.symm.trans ran
  · intro first
    rw [sound.stock.run_free build slab inside]
    exact run_bind_of_error (run_pushFree_of_head first)

/-- The object of a wide slab that was never taken is the first on its freelist. -/
theorem free_detects_untaken : ∃ start w i, Started .debug wide start ∧ Run .debug start w ∧
    w.heap.IsSlab 0 0 ∧ ¬ w.Handed 0 (w.heap.object 0 0 i) ∧
      (free .debug 0 (w.heap.object 0 0 i)).run w.heap = .error doubleFree w.heap := by
  obtain ⟨start, w, started, run, k, positive, small, filling⟩ := exists_filling
  obtain ⟨_, chains, _, i, rest, sound, _, _, first, _⟩ := filling.head positive small
  have slab := filling.1
  have list := (sound.stock.record 0 0 slab).free
  rw [first] at list
  have inside := list.bounded i List.mem_cons_self
  have head : (w.heap.caches 0).headIdx w.heap.memory (w.heap.metaAt 0).freelist = i := by
    rw [sound.stock.layout 0]
    exact list.next_ok.1
  refine ⟨start, w, i, started, run, slab, ?_, (free_detects_iff started run slab ?_).mpr head⟩
  · exact sound.stock.not_handed slab inside (first ▸ List.mem_cons_self)
  · rw [sound.stock.layout 0]
    exact inside

/-- Three objects on one frame. -/
def smallLayout : SlabLayout where
  objSize := 1024
  numObjects := 3
  metadataSize := .byte
  blockOrder := 0
  isOffSlab := false
  metaCache := none

/-- All caches are configured for small slabs. -/
def small : ℕ → SlabLayout := fun _ => smallLayout

theorem small_valid (c : ℕ) : Valid small c where
  size := (by decide : 0 < smallLayout.objSize)
  objects := (by decide : 0 < smallLayout.numObjects)
  narrow := (by decide : smallLayout.numObjects < 256 ^ smallLayout.metadataSize.bytes)
  block := (by decide : 3 * 1024 + smallLayout.arraySize ≤ 2 ^ 0 * kPageSizeBytes)
  array := fun off => by cases off

instance (s : SlabHeap) (c p : ℕ) : Decidable (s.IsSlab c p) :=
  inferInstanceAs (Decidable (_ ∧ _ ∧ _ ∧ _))

/-- Three calls of `Alloc` in a row. -/
def allocThree : Kernel SlabHeap (List (Except MemError ℕ)) := do
  let first ← alloc .debug 1 0
  let second ← alloc .debug 1 0
  let third ← alloc .debug 1 0
  return [first, second, third]

/-- Two objects are taken and given back, and the first is given back once more. -/
def smallTrace : Kernel SlabHeap (Bool × List (Except MemError ℕ) × List (Except MemError ℕ)) := do
  onBuddy (BuddyPmm.init .debug (BuddyPmm.clearBitmap 4) BuddyPmm.blank.pmt 4096)
  let left ← alloc .debug 1 0
  let right ← alloc .debug 1 0
  free .debug 0 0
  free .debug 0 1024
  let s ← get
  free .debug 0 0
  let results ← allocThree
  return (decide (s.IsSlab 0 0 ∧ s.object 0 0 0 = 0), [left, right], results)

/-- The calls of `smallTrace` one by one. -/
theorem smallTrace_steps : ∃ buddy s₁ s₂ s₃ s₄ s₅ final,
    (BuddyPmm.init .debug (BuddyPmm.clearBitmap 4) BuddyPmm.blank.pmt 4096).run
      BuddyPmm.blank = .ok () buddy ∧
    (alloc .debug 1 0).run (fresh small buddy).heap = .ok (.ok 0) s₁ ∧
    (alloc .debug 1 0).run s₁ = .ok (.ok 1024) s₂ ∧
    (free .debug 0 0).run s₂ = .ok () s₃ ∧
    (free .debug 0 1024).run s₃ = .ok () s₄ ∧
    s₄.IsSlab 0 0 ∧ s₄.object 0 0 0 = 0 ∧
    (free .debug 0 0).run s₄ = .ok () s₅ ∧
    EStateM.run allocThree s₅ = .ok [.ok 0, .ok 1024, .ok 0] final := by
  have evaluated : outcome (EStateM.run smallTrace (fresh small BuddyPmm.blank).heap) =
      some (true, [.ok 0, .ok 1024], [.ok 0, .ok 1024, .ok 0]) := by
    decide +kernel
  obtain ⟨_, ran⟩ := eq_ok_of_outcome evaluated
  obtain ⟨_, _, ran₀, ran⟩ := run_bind_eq_ok ran
  obtain ⟨buddy, booted, rfl⟩ := run_zoom_eq_ok ran₀
  obtain ⟨left, s₁, ran₁, ran⟩ := run_bind_eq_ok ran
  obtain ⟨right, s₂, ran₂, ran⟩ := run_bind_eq_ok ran
  obtain ⟨_, s₃, ran₃, ran⟩ := run_bind_eq_ok ran
  obtain ⟨_, s₄, ran₄, ran⟩ := run_bind_eq_ok ran
  obtain ⟨_, _, got, ran⟩ := run_bind_eq_ok ran
  cases got
  obtain ⟨_, s₅, ran₅, ran⟩ := run_bind_eq_ok ran
  obtain ⟨results, final, ran₆, ran⟩ := run_bind_eq_ok ran
  injection ran with values _
  simp only [Prod.mk.injEq, decide_eq_true_eq] at values
  obtain ⟨⟨slab, address⟩, ⟨rfl, rfl⟩, rfl⟩ := values
  exact ⟨buddy, s₁, s₂, s₃, s₄, s₅, final, booted, ran₁, ran₂, ran₃, ran₄, slab, address, ran₅,
    ran₆⟩

/-- Of two freed objects the first can be freed again, and is then handed out twice. -/
theorem free_accepts_older_free : ∃ start w s' final, Started .debug small start ∧
    Run .debug start w ∧ w.heap.IsSlab 0 0 ∧ ¬ w.Handed 0 (w.heap.object 0 0 0) ∧
      (free .debug 0 (w.heap.object 0 0 0)).run w.heap = .ok () s' ∧
      EStateM.run allocThree s' = .ok [.ok 0, .ok 1024, .ok 0] final := by
  obtain ⟨buddy, s₁, s₂, s₃, s₄, s₅, final, booted, ran₁, ran₂, ran₃, ran₄, slab, address, ran₅,
    ran₆⟩ := smallTrace_steps
  have started : Started .debug small (fresh small buddy) := started_fresh small_valid booted
  have first : Reaches .debug (fresh small buddy) (hand (fresh small buddy) s₁ 0 0) :=
    .single ⟨.alloc 1 0, .alloc ran₁⟩
  have both := first.tail ⟨.alloc 1 0, .alloc ran₂⟩
  have one := both.tail ⟨.free 0 0, .free (by simp [hand]) ran₃⟩
  have none := one.tail ⟨.free 0 1024, .free (by simp [hand, giveBack]) ran₄⟩
  have run := started.run_of_few (fun c => (by decide : smallLayout.numObjects < 2 ^ 16)) none
  obtain ⟨_, _, _, _, sound, _⟩ := started.kept run
  refine ⟨_, _, s₅, final, started, run, slab, ?_, ?_, ran₆⟩
  · rintro (held | ⟨c, p, _, off, _⟩)
    · simp [hand, giveBack, fresh] at held
    · rw [sound.stock.layout c] at off
      cases off
  · change (free .debug 0 (s₄.object 0 0 0)).run s₄ = _
    rw [address]
    exact ran₅

end AlkOS.Mem.KmemCache
