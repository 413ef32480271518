import AlkOS.Mem.Slab.DoubleFree

/-!
# Objects are neither lost nor handed out twice

Along a run that wraps no use count, the freelist of every slab visits exactly the
objects that are not handed out, so `Alloc` returns an object that nobody holds. Once a
count has wrapped, `Alloc` of a release build may make up an address.
-/

namespace AlkOS.Mem.KmemCache

open Kernel DyadicBlocks SlabLayout SlabHeap

/-- The freelist of every slab visits the objects that are not handed out, each once. -/
def ChainsMatch (w : SlabWorld) : Prop :=
  ∀ c p, w.heap.IsSlab c p → ∃ chain : List ℕ,
    FreeChain ((w.heap.caches c).nextIdx w.heap.memory ((w.heap.caches c).metaBase
        (pageFrameAddr p) (w.heap.metaAt p).freelist))
      ((w.heap.caches c).headIdx w.heap.memory (w.heap.metaAt p).freelist) chain ∧
    chain.Nodup ∧
    ∀ i, i ∈ chain ↔ i < (w.heap.caches c).numObjects ∧ ¬ w.Handed c (w.heap.object c p i)

/-- Two ranges of bytes have no byte in common. -/
def Apart (start size other otherSize : ℕ) : Prop :=
  start + size ≤ other ∨ other + otherSize ≤ start

/-- The object was not in use and overlaps neither an object in use nor a freelist. -/
structure FreshObject (w : SlabWorld) (s' : SlabHeap) (c ptr : ℕ) : Prop where
  unused : ¬ w.Handed c ptr
  inside : ∃ p i, s'.IsSlab c p ∧ i < (s'.caches c).numObjects ∧
    ptr = pageFrameAddr p + i * (s'.caches c).objSize ∧
    ptr + (s'.caches c).objSize ≤
      pageFrameAddr p + (s'.caches c).numObjects * (s'.caches c).objSize
  others : ∀ d other, (hand w s' c ptr).Handed d other → (d, other) ≠ (c, ptr) →
    Apart ptr (s'.caches c).objSize other (s'.caches d).objSize
  arrays : ∀ d q, s'.IsSlab d q → (s'.caches d).isOffSlab = false →
    Apart ptr (s'.caches c).objSize
      ((s'.caches d).metaBase (pageFrameAddr q) (s'.metaAt q).freelist)
      (s'.caches d).arraySize

variable {build : Build} {layouts : ℕ → SlabLayout} {w : SlabWorld} {s' : SlabHeap}
  {pool : Set ℕ} {c ptr depth : ℕ}

/-- Freelists visit what is not handed out. -/
theorem Kept.chainsMatch (kept : Kept w layouts pool) : ChainsMatch w := by
  obtain ⟨free, chains, lists, sound, _⟩ := kept
  intro c p slab
  have list := (sound.stock.record c p slab).free
  rw [sound.stock.layout c]
  refine ⟨chains p, list.chained, list.nodup, fun i => ⟨fun member => ?_, ?_⟩⟩
  · have inside := list.bounded i member
    exact ⟨inside, sound.stock.not_handed slab inside member⟩
  · rintro ⟨inside, unused⟩
    by_contra absent
    exact unused ((sound.stock.handed c _).mpr ⟨p, i, slab, inside, absent, rfl⟩)

/-- `Alloc` returns a fresh object. -/
theorem Kept.alloc_fresh (kept : Kept w layouts pool)
    (ran : (alloc build depth c).run w.heap = .ok (.ok ptr) s')
    (notWraps : ¬ Wraps w.heap depth c) : FreshObject w s' c ptr := by
  obtain ⟨free, chains, lists, sound, placed⟩ := kept
  have outcome := sound.alloc placed build depth notWraps
  rw [ran] at outcome
  cases outcome with
  | @object _ _ free' chains' lists' sound' placed' arrays unused =>
    have layout : ∀ d, (s'.caches d).toSlabLayout = layouts d := sound'.stock.layout
    obtain ⟨p, i, slab, inside, _, address⟩ := (sound'.stock.handed c ptr).mp
      (Or.inl (mem_live_hand w s' c ptr))
    obtain ⟨place, within⟩ := sound'.stock.object_eq slab inside
    have start := Stock.pageFrameAddr_eq slab
    refine ⟨unused, ⟨p, i, slab, ?_, ?_, ?_⟩, ?_, ?_⟩
    · rw [layout c]
      exact inside
    · rw [layout c, start, address, place]
    · rw [layout c]
      rw [Nat.succ_mul] at within
      omega
    · intro d other held differ
      obtain ⟨q, j, slab', inside', _, address'⟩ := (sound'.stock.handed d other).mp held
      rw [layout c, layout d, address, address']
      refine sound'.stock.objects_disjoint slab slab' inside inside' ?_
      rintro ⟨rfl, rfl⟩
      have same := Stock.cache_unique slab slab'
      subst same
      exact differ (by rw [address, address'])
    · intro d q slab' on
      rw [layout d] at on
      rw [layout c, layout d, address]
      exact sound'.stock.object_disjoint_onSlab slab slab' inside on

/-- While no use count wraps, the freelists visit exactly the objects that are not handed out, and
`Alloc` returns a fresh object. -/
theorem objects_never_shared {start : SlabWorld} (started : Started build layouts start)
    (run : Run build start w) :
    ChainsMatch w ∧ ∀ depth c ptr s', ¬ Wraps w.heap depth c →
      (alloc build depth c).run w.heap = .ok (.ok ptr) s' → FreshObject w s' c ptr := by
  obtain ⟨pool, kept⟩ := started.kept run
  exact ⟨kept.chainsMatch, fun depth c ptr s' notWraps ran => kept.alloc_fresh ran notWraps⟩

/-- Of two objects the first is given back: it is handed out again while the second is in use. -/
theorem objects_never_shared_reused : ∃ start w s', Started .debug small start ∧
    Run .debug start w ∧ 1024 ∈ w.live 0 ∧ ChainsMatch w ∧
      (alloc .debug 1 0).run w.heap = .ok (.ok 0) s' ∧ FreshObject w s' 0 0 := by
  have evaluated : outcome (EStateM.run (do
      onBuddy (BuddyPmm.init .debug (BuddyPmm.clearBitmap 4) BuddyPmm.blank.pmt 4096)
      let first ← alloc .debug 1 0
      let second ← alloc .debug 1 0
      free .debug 0 0
      let third ← alloc .debug 1 0
      return [first, second, third]) (fresh small BuddyPmm.blank).heap) =
      some [.ok 0, .ok 1024, .ok 0] := by decide +kernel
  obtain ⟨_, ran⟩ := eq_ok_of_outcome evaluated
  obtain ⟨_, _, ran₀, ran⟩ := run_bind_eq_ok ran
  obtain ⟨buddy, booted, rfl⟩ := run_zoom_eq_ok ran₀
  obtain ⟨_, s₁, ran₁, ran⟩ := run_bind_eq_ok ran
  obtain ⟨_, s₂, ran₂, ran⟩ := run_bind_eq_ok ran
  obtain ⟨_, s₃, ran₃, ran⟩ := run_bind_eq_ok ran
  obtain ⟨_, s₄, ran₄, ran⟩ := run_bind_eq_ok ran
  cases ran
  have started : Started .debug small (fresh small buddy) := started_fresh small_valid booted
  have both : Reaches .debug (fresh small buddy)
      (hand (hand (fresh small buddy) s₁ 0 0) s₂ 0 1024) :=
    .tail (.single ⟨.alloc 1 0, .alloc ran₁⟩) ⟨.alloc 1 0, .alloc ran₂⟩
  have run := started.run_of_few (fun _ => (by decide : smallLayout.numObjects < 2 ^ 16))
    (both.tail ⟨.free 0 0, .free (by simp [hand]) ran₃⟩)
  obtain ⟨_, _, _, _, sound, _⟩ := started.kept run
  have layout : ∀ c, (s₃.caches c).toSlabLayout = smallLayout := sound.stock.layout
  have notWraps : ¬ Wraps s₃ 1 0 := not_wraps_of_few fun c => by
    rw [layout c]
    decide
  obtain ⟨chains, alloc⟩ := objects_never_shared started run
  exact ⟨_, _, _, started, run, by simp [hand, giveBack], chains, ran₄,
    alloc 1 0 0 _ notWraps ran₄⟩

/-- After a use count has wrapped, the last eight bytes of the address space are handed out. -/
theorem wrapped_slab_hands_out_garbage : ∃ start w s', Started .release wide start ∧
    Reaches .release start w ∧
      (alloc .release 1 0).run w.heap = .ok (.ok (2 ^ 64 - 8)) s' ∧
      ¬ FreshObject w s' 0 (2 ^ 64 - 8) := by
  obtain ⟨start, w, started, run, k, positive, small, filling⟩ := exists_filling
  obtain ⟨w', rest, full⟩ := filling.full .release positive small
  obtain ⟨ptr, s₁, ran₁, slabs₁, caches₁, head₁, inuse₁, freelist₁⟩ := full.overflow .release
  obtain ⟨slab, _, _, free, chains, lists, sound, _⟩ := full
  have layout : (s₁.caches 0).toSlabLayout = wideLayout := by
    rw [caches₁]
    exact sound.stock.layout 0
  have slab₁ : s₁.IsSlab 0 0 := by
    rw [slabs₁]
    exact slab
  obtain ⟨s₂, freelist, ran₂, _, caches₂, retouched⟩ := run_takeObject_stays
    (congrArg SlabLayout.isOffSlab layout) head₁ slab₁.1 slab₁.2.1 (Or.inl rfl)
    (by rw [inuse₁, congrArg SlabLayout.numObjects layout]; decide)
  have address : s₁.object 0 0 (s₁.metaAt 0).freelist = 2 ^ 64 - 8 := by
    unfold object
    rw [layout, freelist₁]
    decide
  rw [address] at ran₂
  refine ⟨start, hand w' s₁ 0 ptr, s₂, started,
    (Run.reaches (run.trans rest)).tail ⟨.alloc 1 0, .alloc ran₁⟩,
    run_alloc_of_head 0 head₁ ran₂, ?_⟩
  rintro ⟨_, ⟨p, i, slab₂, bound, place, _⟩, _⟩
  -- The only slab is at address zero, and its objects end far below.
  rw [retouched.isSlab, slabs₁] at slab₂
  rw [caches₂, layout] at bound place
  rw [sound.wide_slab slab₂] at place
  have small : i < 65536 := bound
  have start : 2 ^ 64 - 8 = pageFrameAddr 0 + i * 8 := place
  rw [show pageFrameAddr 0 = 0 from rfl] at start
  omega

end AlkOS.Mem.KmemCache
