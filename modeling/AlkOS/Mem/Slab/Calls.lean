import AlkOS.Mem.Slab.Shelves

/-!
# `Alloc` and `Free`

What the parts of `Alloc` and `Free` do to a sound state, and from that what a
whole call does. `Alloc` may pass through a chain of meta caches, so its result
is by induction on the depth.
-/

namespace AlkOS.Mem.KmemCache

open Kernel DyadicBlocks IntrusiveList SlabLayout SlabHeap

variable {build : Build} {w : SlabWorld} {s s' : SlabHeap} {layouts : ℕ → SlabLayout} {pool : Set ℕ}
  {free chains : ℕ → List ℕ} {lists : ℕ × SlabList → List ℕ} {source target list : SlabList}
  {c d p q i j ptr : ℕ} {rest : List ℕ} {live : ℕ → Set ℕ}

/-- A world with one more object in the hands of the clients of a cache. -/
def hand (w : SlabWorld) (s : SlabHeap) (c ptr : ℕ) : SlabWorld :=
  ⟨s, Function.update w.live c (insert ptr (w.live c)), w.blocks⟩

theorem mem_handed : q ∈ Function.update live c (insert ptr (live c)) d ↔
    (d = c ∧ q = ptr) ∨ q ∈ live d := by
  by_cases same : d = c
  · subst same
    rw [Function.update_self, Set.mem_insert_iff, eq_self, true_and]
  · rw [Function.update_of_ne same, or_iff_right fun new => same new.1]

theorem mem_live_hand (w : SlabWorld) (s : SlabHeap) (c ptr : ℕ) : ptr ∈ (hand w s c ptr).live c :=
  mem_handed.mpr (.inl ⟨rfl, rfl⟩)

/-- A world with one object fewer in the hands of the clients of a cache. -/
def giveBack (w : SlabWorld) (s : SlabHeap) (c ptr : ℕ) : SlabWorld :=
  ⟨s, Function.update w.live c (w.live c \ {ptr}), w.blocks⟩

theorem mem_givenBack : q ∈ Function.update live c (live c \ {ptr}) d ↔
    q ∈ live d ∧ ¬ (d = c ∧ q = ptr) := by
  by_cases same : d = c
  · subst same
    rw [Function.update_self, Set.mem_sdiff, Set.mem_singleton_iff, eq_self, true_and]
  · rw [Function.update_of_ne same, and_iff_left fun old => same old.1]

theorem mem_popped (first : chains p = i :: rest) :
    j ∈ chains q ↔ j ∈ Function.update chains p rest q ∨ q = p ∧ j = i := by
  rw [← Family.mem_pushed, Function.update_self, Function.update_idem, ← first,
    Function.update_eq_self]

namespace Stock

section

variable (stock : Stock w layouts pool free chains) (slab : w.heap.IsSlab c p)
include stock slab

/-- A free object is not handed out. -/
theorem not_handed (inside : i < (layouts c).numObjects) (available : i ∈ chains p) :
    ¬ w.Handed c (w.heap.object c p i) := by
  intro handed
  obtain ⟨q, j, owner, there, taken, address⟩ := (stock.handed c _).mp handed
  obtain ⟨rfl, rfl⟩ := stock.object_injective slab owner inside there address
  exact taken available

/-- Handing out the first free object of a slab. -/
theorem handed_pop (first : chains p = i :: rest) (d ptr : ℕ) :
    (ptr ∈ Function.update w.live c (insert (w.heap.object c p i) (w.live c)) d ∨
        w.heap.HoldsFreelist d ptr) ↔
      ∃ q j, w.heap.IsSlab d q ∧ j < (layouts d).numObjects ∧
        j ∉ Function.update chains p rest q ∧ ptr = w.heap.object d q j := by
  have record := stock.record c p slab
  rw [first] at record
  have inside := record.free.bounded i List.mem_cons_self
  have fresh : i ∉ rest := (List.nodup_cons.mp record.free.nodup).1
  rw [mem_handed, or_assoc, show _ ∨ _ ↔ _ from stock.handed d ptr]
  constructor
  · rintro (⟨rfl, rfl⟩ | ⟨q, j, owner, there, taken, rfl⟩)
    · exact ⟨p, i, slab, inside, by rwa [Function.update_self], rfl⟩
    · exact ⟨q, j, owner, there, fun later => taken ((mem_popped first).mpr (.inl later)), rfl⟩
  · rintro ⟨q, j, owner, there, taken, rfl⟩
    by_cases same : q = p ∧ j = i
    · obtain ⟨rfl, rfl⟩ := same
      cases cache_unique slab owner
      exact .inl ⟨rfl, rfl⟩
    · exact .inr ⟨q, j, owner, there,
        fun later => ((mem_popped first).mp later).elim taken same, rfl⟩

theorem apart_pop (first : chains p = i :: rest) (d ptr : ℕ)
    (held : ptr ∈ Function.update w.live c (insert (w.heap.object c p i) (w.live c)) d) :
    ¬ w.heap.HoldsFreelist d ptr := by
  rcases mem_handed.mp held with ⟨rfl, rfl⟩ | before
  · have record := stock.record d p slab
    rw [first] at record
    intro array
    refine stock.not_handed slab (record.free.bounded i List.mem_cons_self) ?_ (Or.inr array)
    rw [first]
    exact List.mem_cons_self
  · exact stock.apart d ptr before

/-- Giving back an object a client holds. -/
theorem handed_push (inside : i < (layouts c).numObjects) (held : w.heap.object c p i ∈ w.live c)
    (d ptr : ℕ) :
    (ptr ∈ Function.update w.live c (w.live c \ {w.heap.object c p i}) d ∨
        w.heap.HoldsFreelist d ptr) ↔
      ∃ q j, w.heap.IsSlab d q ∧ j < (layouts d).numObjects ∧
        j ∉ Function.update chains p (i :: chains p) q ∧ ptr = w.heap.object d q j := by
  have other : w.heap.HoldsFreelist d ptr → ¬ (d = c ∧ ptr = w.heap.object c p i) := by
    rintro array ⟨rfl, rfl⟩
    exact stock.apart d _ held array
  rw [mem_givenBack, and_or_right, or_iff_left_of_imp other,
    show _ ∨ _ ↔ _ from stock.handed d ptr]
  simp only [Family.mem_pushed, not_or]
  constructor
  · rintro ⟨⟨q, j, owner, there, taken, rfl⟩, other⟩
    refine ⟨q, j, owner, there, ⟨taken, ?_⟩, rfl⟩
    rintro ⟨rfl, rfl⟩
    cases cache_unique slab owner
    exact other ⟨rfl, rfl⟩
  · rintro ⟨q, j, owner, there, ⟨taken, new⟩, rfl⟩
    refine ⟨⟨q, j, owner, there, taken, rfl⟩, ?_⟩
    rintro ⟨rfl, address⟩
    exact new (stock.object_injective owner slab there inside address)

end

end Stock

/-- `s'` is `s` with another freelist, visiting `chain`, for the slab `p`. -/
structure Refreed (s s' : SlabHeap) (layout : SlabLayout) (p freelist : ℕ) (chain : List ℕ) :
    Prop where
  caches : s'.caches = s.caches
  table : s'.buddy.freelistTable = s.buddy.freelistTable
  total : s'.buddy.pmt.numPageFrames = s.buddy.pmt.numPageFrames
  metas : ∀ page, s'.metaAt page =
    if page = p then { s.metaAt p with freelist := freelist } else s.metaAt page
  offKeeps : layout.isOffSlab = true → freelist = (s.metaAt p).freelist
  outside : ∀ address, address < s.arrayBase layout p ∨
    s.arrayBase layout p + layout.arraySize ≤ address → s'.memory address = s.memory address
  list : Freelist layout s'.memory (s.arrayBase layout p) freelist chain

namespace Refreed

variable {layout : SlabLayout} {freelist : ℕ} {chain : List ℕ} {memory : Bytes}
  (outside : ∀ address, address < s.arrayBase layout p ∨
    s.arrayBase layout p + layout.arraySize ≤ address → memory address = s.memory address)
include outside

/-- Only the freelist array and its head were written. -/
theorem of_memory
    (list : Freelist layout memory (s.arrayBase layout p) (s.metaAt p).freelist chain) :
    Refreed s { s with memory := memory } layout p (s.metaAt p).freelist chain := by
  refine ⟨rfl, rfl, rfl, fun page => ?_, fun _ => rfl, outside, list⟩
  by_cases same : page = p
  · rw [if_pos same, same]
    rfl
  · rw [if_neg same]
    rfl

theorem of_head (on : layout.isOffSlab = false)
    (list : Freelist layout memory (s.arrayBase layout p) freelist chain) :
    Refreed s (setMeta { s with memory := memory } p { s.metaAt p with freelist := freelist })
      layout p freelist chain := by
  refine ⟨rfl, rfl, rfl, fun page => ?_, fun off => ?_, outside, list⟩
  · exact metaAt_setMeta
  · rw [on] at off
    cases off

end Refreed

namespace Stock

section

variable (stock : Stock w layouts pool free chains) (slab : w.heap.IsSlab c p)
include stock slab

/-- `Alloc` takes the first index off a freelist. -/
theorem popFree (first : chains p = i :: rest) :
    ∃ s' freelist, (popFree c p i).run w.heap = .ok () s' ∧
      Refreed w.heap s' (layouts c) p freelist rest := by
  have list := (stock.record c p slab).free
  rw [first] at list
  have room := stock.room slab
  unfold KmemCache.popFree
  rw [run_bind run_loadCache, stock.layout c]
  cases off : (layouts c).isOffSlab with
  | true =>
    refine ⟨_, _, rfl, Refreed.of_memory (fun address away => ?_)
      (list.pop_offSlab room (based _ _ _) off)⟩
    exact room.set_outside (by simp only [shift, off, ↓reduceIte]; omega) away
  | false =>
    exact ⟨_, _, rfl, Refreed.of_head (fun _ _ => rfl) off (list.pop_onSlab off)⟩

/-- `Free` puts an index in front of a freelist. -/
theorem pushFree (inside : i < (layouts c).numObjects) (fresh : i ∉ chains p) :
    ∃ s' freelist, (pushFree c p i).run w.heap = .ok () s' ∧
      Refreed w.heap s' (layouts c) p freelist (i :: chains p) := by
  have list := (stock.record c p slab).free
  have room := stock.room slab
  have notHead : i ≠ (layouts c).headIdx w.heap.memory (w.heap.metaAt p).freelist := by
    rintro rfl
    have chained := list.chained
    cases split : chains p with
    | nil =>
      rw [split] at chained
      have last : (layouts c).headIdx w.heap.memory (w.heap.metaAt p).freelist =
        kFreelistSentinel := chained
      have bound := numObjects_lt (stock.valid c).narrow
      omega
    | cons j rest =>
      rw [split] at chained fresh
      exact fresh (chained.1 ▸ List.mem_cons_self)
  have entry := room.entry_eq inside
  unfold KmemCache.pushFree
  rw [run_bind run_loadCache, run_bind run_load,
    run_get_bind, stock.layout c,
    run_bind (run_rAssertTrue notHead), entry]
  cases off : (layouts c).isOffSlab with
  | true =>
    refine ⟨_, _, rfl, Refreed.of_memory (fun address away => ?_)
      (list.push_offSlab inside fresh room (based _ _ _) off)⟩
    rw [room.set_outside (by simp only [shift]; omega) away]
    exact room.set_outside (by omega) away
  | false =>
    refine ⟨_, _, rfl, Refreed.of_head (fun address away => ?_) off
      (list.push_onSlab inside fresh room off)⟩
    exact room.set_outside (by omega) away

end

end Stock

/-- The state with another use count for one slab. -/
def setInuse (s : SlabHeap) (p inuse : ℕ) : SlabHeap :=
  s.setMeta p { s.metaAt p with inuse := inuse }

namespace Sound

/-- A new freelist and use count for one slab, and the objects handed out to match. -/
theorem refree (sound : Sound w layouts pool free chains lists) (slab : w.heap.IsSlab c p)
    {freelist inuse : ℕ} {chain : List ℕ} {live : ℕ → Set ℕ}
    (refreed : Refreed w.heap s (layouts c) p freelist chain)
    (used : inuse + chain.length = (layouts c).numObjects) (small : inuse < 2 ^ 16)
    (handed : ∀ d ptr, (ptr ∈ live d ∨ w.heap.HoldsFreelist d ptr) ↔
      ∃ q i, w.heap.IsSlab d q ∧ i < (layouts d).numObjects ∧
        i ∉ Function.update chains p chain q ∧ ptr = w.heap.object d q i)
    (apart : ∀ d, ∀ ptr ∈ live d, ¬ w.heap.HoldsFreelist d ptr) :
    Sound ⟨setInuse s p inuse, live, w.blocks⟩ layouts pool free (Function.update chains p chain)
        lists ∧
      KeepsArrays w.heap (setInuse s p inuse) ∧
      ∀ page, ((setInuse s p inuse).metaAt page).inuse =
        if page = p then inuse else (w.heap.metaAt page).inuse := by
  have retouched : Retouched w.heap (setInuse s p inuse) p freelist inuse := by
    refine ⟨refreed.total, fun page => ?_⟩
    unfold setInuse
    rw [metaAt_setMeta]
    split_ifs with same
    · rw [refreed.metas p, if_pos rfl]
    · rw [refreed.metas page, if_neg same]
  have same := retouched.sameSlabs (fun d => congrArg (fun caches => (caches d).toSlabLayout)
    refreed.caches) slab fun off => refreed.offKeeps (sound.stock.layout c ▸ off)
  refine ⟨⟨sound.stock.rewrite slab refreed.caches refreed.table retouched refreed.offKeeps
    refreed.outside refreed.list used small handed apart,
    sound.shelved.congr refreed.caches (fun page _ => ?_) same.isSlab⟩, .of_same same,
    fun page => ?_⟩
  · unfold SlabHeap.next SlabHeap.prev
    rw [retouched.kept page]
    exact ⟨rfl, rfl⟩
  · rw [retouched.metas page]
    split_ifs
    · rfl
    · rfl

end Sound

namespace Placed

/-- The slab on its way arrives where it is. -/
theorem settle (placed : Placed s lists {p})
    (fits : ∀ c list, p ∈ lists (c, list) →
      list = place (s.metaAt p).inuse (s.caches c).numObjects) : Placed s lists ∅ := by
  intro c list q member _
  by_cases same : q = p
  · subst same
    exact fits c list member
  · exact placed c list q member same

/-- The slab on its way arrives by moving to another list. -/
theorem moved (placed : Placed s lists {p}) (differ : source ≠ target) (shelved : Shelved s lists)
    (member : p ∈ lists (c, source))
    (inuse : ∀ page, (s'.metaAt page).inuse = (s.metaAt page).inuse)
    (layoutSame : ∀ d, (s'.caches d).toSlabLayout = (s.caches d).toSlabLayout)
    (fits : target = place (s.metaAt p).inuse (s.caches c).numObjects) :
    Placed s' (Shelves.moved lists c p source target) ∅ := by
  intro d list q kept _
  rw [inuse q, layoutSame d]
  rw [mem_moved differ member shelved] at kept
  by_cases same : q = p
  · subst same
    rw [if_pos rfl] at kept
    obtain ⟨rfl, rfl⟩ := kept
    exact fits
  · rw [if_neg same] at kept
    exact placed d list q kept same

end Placed

namespace Sound

section

variable (sound : Sound w layouts pool free chains lists)
include sound

theorem layoutSame {w' : SlabWorld} {free' chains' : ℕ → List ℕ} {lists' : ℕ × SlabList → List ℕ}
    (sound' : Sound w' layouts pool free' chains' lists') (d : ℕ) :
    (w'.heap.caches d).toSlabLayout = (w.heap.caches d).toSlabLayout :=
  (sound'.stock.layout d).trans (sound.stock.layout d).symm

/-- `Alloc` moves a slab without free objects to the full list. -/
theorem retireFull (build : Build) (placed : Placed w.heap lists {p})
    (member : p ∈ lists (c, .partly)) (used : 0 < (w.heap.metaAt p).inuse) :
    ∃ s' lists', (retireFull build c p).run w.heap = .ok () s' ∧
      Sound ⟨s', w.live, w.blocks⟩ layouts pool free chains lists' ∧ Placed s' lists' ∅ ∧
      KeepsArrays w.heap s' := by
  unfold KmemCache.retireFull
  rw [run_bind run_load, run_bind run_loadCache]
  by_cases complete : (w.heap.metaAt p).inuse = (w.heap.caches c).numObjects
  · rw [if_pos complete]
    have differ : SlabList.partly ≠ .full := by decide
    obtain ⟨s', ran, sound', arrays, inuse⟩ := sound.move build member differ
      (fun cache => { cache with numSlabsPartial := decr cache.numSlabsPartial })
      (fun _ => rfl) (fun _ => rfl) fun _ => sound.shelved.counted_moved differ member
        (by simp [stepped]) (by simp [stepped]) rfl
    refine ⟨s', _, ran, sound', placed.moved differ sound.shelved member inuse
      (sound.layoutSame sound') ?_, arrays⟩
    rw [place, if_pos complete]
  · rw [if_neg complete]
    refine ⟨w.heap, lists, rfl, sound, placed.settle fun d list listed => ?_, .refl⟩
    cases sound.shelved.shelves.family.apart listed member
    rw [place, if_neg complete, if_neg (by omega)]

/-- `Alloc` takes the first free object of the first partial slab. -/
theorem takeObject (build : Build) (placed : Placed w.heap lists {p})
    (head : (w.heap.caches c).slabs .partly = some p) (first : chains p = i :: rest)
    (roomy : (w.heap.metaAt p).inuse + 1 < 2 ^ 16) :
    ∃ s' lists', (takeObject build c).run w.heap = .ok (w.heap.object c p i) s' ∧
      Sound (hand w s' c (w.heap.object c p i)) layouts pool free (Function.update chains p rest)
        lists' ∧ Placed s' lists' ∅ ∧ KeepsArrays w.heap s' := by
  have member : p ∈ lists (c, .partly) := sound.shelved.shelves.family.head_mem head
  have slab : w.heap.IsSlab c p := (sound.shelved.member c p).mpr ⟨_, member⟩
  have record := sound.stock.record c p slab
  have list := record.free
  rw [first] at list
  have inside := list.bounded i List.mem_cons_self
  have current : (w.heap.caches c).headIdx w.heap.memory (w.heap.metaAt p).freelist = i := by
    rw [sound.stock.layout c]
    exact list.next_ok.1
  have notLast : i ≠ kFreelistSentinel := by
    have bound := numObjects_lt (sound.stock.valid c).narrow
    omega
  obtain ⟨s₁, freelist, popped, refreed⟩ := sound.stock.popFree slab first
  have counted : (w.heap.metaAt p).inuse + 1 + rest.length = (layouts c).numObjects := by
    have used := record.used
    rw [first, List.length_cons] at used
    omega
  obtain ⟨sound₁, arrays₁, inuse₁⟩ := sound.refree slab refreed counted roomy
    (sound.stock.handed_pop slab first) (sound.stock.apart_pop slab first)
  have stored : ((s₁.metaAt p).inuse + 1) % 2 ^ 16 = (w.heap.metaAt p).inuse + 1 := by
    rw [refreed.metas p, if_pos rfl]
    exact Nat.mod_eq_of_lt roomy
  have placed₁ : Placed (setInuse s₁ p ((w.heap.metaAt p).inuse + 1)) lists {p} := by
    intro d l q listed other
    have notSlab : q ≠ p := other
    rw [inuse₁ q, if_neg notSlab]
    change l = place _ (s₁.caches d).numObjects
    rw [refreed.caches]
    exact placed d l q listed other
  obtain ⟨s₂, lists', retired, sound₂, placed₂, arrays₂⟩ :=
    sound₁.retireFull build placed₁ member (by
      rw [inuse₁ p, if_pos rfl]
      omega)
  refine ⟨s₂, lists', ?_, sound₂, placed₂, arrays₁.trans arrays₂⟩
  unfold KmemCache.takeObject
  rw [run_bind run_loadCache, head]
  rw [run_bind (run_asSlab slab.2.1),
    run_bind (run_onBuddy_of_ok (BuddyPmm.run_getPageFrameNumber slab.1)),
    run_get_bind, run_bind run_load]
  rw [current, run_bind (run_assertTrue notLast),
    run_bind popped, run_bind run_load, run_bind run_load,
    stored]
  change (KmemCache.retireFull build c p >>= _).run
    (setInuse s₁ p ((w.heap.metaAt p).inuse + 1)) = _
  rw [run_bind retired]
  rfl

end

section

variable (sound : Sound w layouts pool free chains lists) (placed : Placed w.heap lists {p})
include sound placed

/-- `Free` moves an emptied slab to the free list. -/
theorem relist_empty (member : p ∈ lists (c, place 1 (w.heap.caches c).numObjects))
    (objects : 0 < (w.heap.caches c).numObjects) (empty : (w.heap.metaAt p).inuse = 0) :
    ∃ s' lists', (relist build c p).run w.heap = .ok () s' ∧
      Sound ⟨s', w.live, w.blocks⟩ layouts pool free chains lists' ∧ Placed s' lists' ∅ := by
  have target : SlabList.free = place (w.heap.metaAt p).inuse (w.heap.caches c).numObjects := by
    rw [empty, place, if_neg (by omega), if_pos rfl]
  unfold KmemCache.relist
  rw [run_bind run_loadCache, run_bind run_load, if_pos empty]
  have differ : place 1 (w.heap.caches c).numObjects ≠ .free := by
    rw [place]
    split <;> decide
  -- A slab of one object comes from the full list, and no partial slab is lost.
  have partly : (if (w.heap.caches c).numObjects > 1 then decr (w.heap.caches c).numSlabsPartial
      else (w.heap.caches c).numSlabsPartial) = stepped (place 1 (w.heap.caches c).numObjects)
        .free .partly (w.heap.caches c).numSlabsPartial := by
    by_cases single : (w.heap.caches c).numObjects = 1
    · simp [stepped, place, single]
    · have more : 1 < (w.heap.caches c).numObjects := by omega
      simp [stepped, place, Ne.symm single, more]
  obtain ⟨s', ran, sound', arrays, inuse⟩ := sound.move build member differ
    (fun cache =>
      { cache with
        numSlabsPartial :=
          if cache.numObjects > 1 then decr cache.numSlabsPartial else cache.numSlabsPartial
        numSlabsFree := incr cache.numSlabsFree })
    (fun _ => rfl) (fun _ => rfl) fun _ => sound.shelved.counted_moved differ member partly
      (by simp [stepped]) rfl
  exact ⟨s', _, ran, sound', placed.moved differ sound.shelved member inuse
    (sound.layoutSame sound') target⟩

/-- `Free` moves a full slab to the partial list and leaves a partial one there. -/
theorem relist_used
    (member : p ∈ lists (c, place ((w.heap.metaAt p).inuse + 1) (w.heap.caches c).numObjects))
    (objects : (w.heap.metaAt p).inuse < (w.heap.caches c).numObjects)
    (bound : (w.heap.caches c).numObjects ≤ 2 ^ 64) (used : (w.heap.metaAt p).inuse ≠ 0) :
    ∃ s' lists', (relist build c p).run w.heap = .ok () s' ∧
      Sound ⟨s', w.live, w.blocks⟩ layouts pool free chains lists' ∧ Placed s' lists' ∅ := by
  have target : SlabList.partly = place (w.heap.metaAt p).inuse (w.heap.caches c).numObjects := by
    rw [place, if_neg (by omega), if_neg used]
  have last : decr (w.heap.caches c).numObjects = (w.heap.caches c).numObjects - 1 :=
    decr_eq (by omega) bound
  unfold KmemCache.relist
  rw [run_bind run_loadCache, run_bind run_load, if_neg used, last]
  by_cases full : (w.heap.metaAt p).inuse = (w.heap.caches c).numObjects - 1
  · rw [if_pos full]
    have origin : place ((w.heap.metaAt p).inuse + 1) (w.heap.caches c).numObjects = .full := by
      rw [place, if_pos (by omega)]
    rw [origin] at member
    have differ : SlabList.full ≠ .partly := by decide
    obtain ⟨s', ran, sound', arrays, inuse⟩ := sound.move build member differ
      (fun cache => { cache with numSlabsPartial := incr cache.numSlabsPartial })
      (fun _ => rfl) (fun _ => rfl) fun _ => sound.shelved.counted_moved differ member
        (by simp [stepped]) (by simp [stepped]) rfl
    exact ⟨s', _, ran, sound', placed.moved differ sound.shelved member inuse
      (sound.layoutSame sound') target⟩
  · rw [if_neg full]
    have origin : place ((w.heap.metaAt p).inuse + 1) (w.heap.caches c).numObjects = .partly := by
      rw [place, if_neg (by omega), if_neg (by omega)]
    rw [origin] at member
    refine ⟨w.heap, lists, rfl, sound, placed.settle fun d list listed => ?_⟩
    cases sound.shelved.shelves.family.apart listed member
    exact target

end

end Sound

namespace Stock

section

variable (stock : Stock w layouts pool free chains) (slab : w.heap.IsSlab c p)
include stock slab

/-- The frame of an object is a frame of its slab. -/
theorem object_page (inside : i < (layouts c).numObjects) :
    w.heap.object c p i / kPageSizeBytes ∈ (⟨p, (layouts c).blockOrder⟩ : Block).pages := by
  obtain ⟨address, upto⟩ := stock.object_eq slab inside
  have fits := (stock.valid c).block
  have size := (stock.valid c).size
  rw [Nat.succ_mul] at upto
  rw [address]
  have page : 0 < kPageSizeBytes := by decide
  constructor
  · rw [Nat.le_div_iff_mul_le page]
    exact Nat.le_add_right _ _
  · rw [Nat.div_lt_iff_lt_mul page, Nat.add_mul]
    change p * kPageSizeBytes + i * (layouts c).objSize <
      p * kPageSizeBytes + 2 ^ (layouts c).blockOrder * kPageSizeBytes
    omega

/-- Clearing the low bits of a frame of a slab gives the first frame. -/
theorem head_of_page {page : ℕ} (here : page ∈ (⟨p, (layouts c).blockOrder⟩ : Block).pages) :
    page / 2 ^ (layouts c).blockOrder * 2 ^ (layouts c).blockOrder = p := by
  have aligned : (⟨p, (layouts c).blockOrder⟩ : Block).Aligned :=
    stock.books.tiling.live_aligned (stock.block_live slab)
  rw [aligned.mem_pages_iff.mp here]
  exact Nat.div_mul_cancel aligned

/-- A slab with an object that is not free has fewer free objects than objects. -/
theorem chain_length_lt (inside : i < (layouts c).numObjects) (taken : i ∉ chains p) :
    (chains p).length < (layouts c).numObjects := by
  have list := (stock.record c p slab).free
  have subset : (i :: chains p).toFinset ⊆ Finset.range (layouts c).numObjects := by
    intro j member
    rw [List.mem_toFinset, List.mem_cons] at member
    rw [Finset.mem_range]
    rcases member with rfl | listed
    · exact inside
    · exact list.bounded j listed
  have bound := Finset.card_le_card subset
  rw [List.toFinset_card_of_nodup (List.nodup_cons.mpr ⟨taken, list.nodup⟩),
    Finset.card_range] at bound
  exact bound

end

/-- `Free` finds the slab and the index of an object. -/
theorem run_free (build : Build) (stock : Stock w layouts pool free chains)
    (slab : w.heap.IsSlab c p) (inside : i < (layouts c).numObjects) :
    (KmemCache.free build c (w.heap.object c p i)).run w.heap = EStateM.run (do
      KmemCache.pushFree c p i
      store p { ← load p with inuse := ((← load p).inuse + (2 ^ 16 - 1)) % 2 ^ 16 }
      relist build c p) w.heap := by
  have layout := stock.layout c
  have here := stock.object_page slab inside
  obtain ⟨_, pageOrder, _⟩ := (stock.record c p slab).pages _ here
  have pageInside := stock.books.live_inside (stock.block_live slab) here
  have headPfn := stock.head_of_page slab here
  obtain ⟨address, upto⟩ := stock.object_eq slab inside
  have size := (stock.valid c).size
  have below := stock.bytes_inside slab
  have fits := (stock.valid c).block
  rw [Nat.succ_mul] at upto
  have index : (w.heap.object c p i + 2 ^ 64 - pageFrameAddr p) % 2 ^ 64 /
      (w.heap.caches c).objSize = i := by
    rw [layout, address, Stock.pageFrameAddr_eq slab]
    have offset : (p * kPageSizeBytes + i * (layouts c).objSize + 2 ^ 64 - p * kPageSizeBytes) %
        2 ^ 64 = i * (layouts c).objSize := by
      omega
    rw [offset, Nat.mul_div_cancel i size]
  unfold KmemCache.free
  rw [run_bind (run_onBuddy_of_ok (BuddyPmm.run_getPageMeta pageInside))]
  change EStateM.run (onBuddy (BuddyPmm.getPageMeta build (w.heap.object c p i / kPageSizeBytes /
    2 ^ (w.heap.metaAt (w.heap.object c p i / kPageSizeBytes)).order *
    2 ^ (w.heap.metaAt (w.heap.object c p i / kPageSizeBytes)).order)) >>= _) w.heap = _
  rw [pageOrder, headPfn,
    run_bind (run_onBuddy_of_ok (BuddyPmm.run_getPageMeta slab.1)),
    run_bind (run_asSlab slab.2.1), run_bind run_load,
    run_bind (run_rAssertTrue slab.2.1), run_bind run_load,
    run_bind (run_rAssertTrue slab.2.2.1),
    run_bind run_loadCache]
  rw [index]

end Stock

namespace Sound

/-- `Free` of an object a client holds. -/
theorem freeObject (sound : Sound w layouts pool free chains lists)
    (placed : Placed w.heap lists ∅) (held : ptr ∈ w.live c) :
    ∃ s' chains' lists', (KmemCache.free build c ptr).run w.heap = .ok () s' ∧
      Sound (giveBack w s' c ptr) layouts pool free chains' lists' ∧ Placed s' lists' ∅ := by
  obtain ⟨p, i, slab, inside, taken, rfl⟩ := (sound.stock.handed c ptr).mp (Or.inl held)
  have record := sound.stock.record c p slab
  have layout := sound.stock.layout c
  obtain ⟨s₁, freelist, pushed, refreed⟩ := sound.stock.pushFree slab inside taken
  -- A held object is counted, so the use count is not zero before the call.
  have fewer := sound.stock.chain_length_lt slab inside taken
  have used := record.used
  have small := record.small
  have counted : (w.heap.metaAt p).inuse - 1 + (i :: chains p).length =
      (layouts c).numObjects := by
    rw [List.length_cons]
    omega
  obtain ⟨sound₁, _, inuse₁⟩ := sound.refree slab refreed counted (by omega)
    (sound.stock.handed_push slab inside held)
    fun d ptr held => sound.stock.apart d ptr (mem_givenBack.mp held).1
  have stored : ((s₁.metaAt p).inuse + (2 ^ 16 - 1)) % 2 ^ 16 = (w.heap.metaAt p).inuse - 1 := by
    rw [refreed.metas p, if_pos rfl]
    change ((w.heap.metaAt p).inuse + (2 ^ 16 - 1)) % 2 ^ 16 = _
    omega
  have placed₁ : Placed (setInuse s₁ p ((w.heap.metaAt p).inuse - 1)) lists {p} := by
    intro d l q listed other
    have notSlab : q ≠ p := other
    rw [inuse₁ q, if_neg notSlab]
    change l = place _ (s₁.caches d).numObjects
    rw [refreed.caches]
    exact placed d l q listed (Set.notMem_empty q)
  have sameLayout : ((setInuse s₁ p ((w.heap.metaAt p).inuse - 1)).caches c).numObjects =
      (layouts c).numObjects := by
    change (s₁.caches c).numObjects = _
    rw [refreed.caches, layout]
  obtain ⟨l, member⟩ := (sound.shelved.member c p).mp slab
  have origin : l = place (((setInuse s₁ p ((w.heap.metaAt p).inuse - 1)).metaAt p).inuse + 1)
      ((setInuse s₁ p ((w.heap.metaAt p).inuse - 1)).caches c).numObjects := by
    have positive : 1 ≤ (w.heap.metaAt p).inuse := by omega
    rw [inuse₁ p, if_pos rfl, Nat.sub_add_cancel positive, sameLayout, ← layout]
    exact placed c l p member (Set.notMem_empty p)
  rw [origin] at member
  have relisted : ∃ s₂ lists', (relist build c p).run
      (setInuse s₁ p ((w.heap.metaAt p).inuse - 1)) = .ok () s₂ ∧
      Sound (giveBack w s₂ c (w.heap.object c p i)) layouts pool free
        (Function.update chains p (i :: chains p)) lists' ∧ Placed s₂ lists' ∅ := by
    by_cases empty : ((setInuse s₁ p ((w.heap.metaAt p).inuse - 1)).metaAt p).inuse = 0
    · rw [empty] at member
      exact sound₁.relist_empty placed₁ member
        (sameLayout ▸ (sound.stock.valid c).objects) empty
    · refine sound₁.relist_used placed₁ member ?_ ?_ empty
      · rw [sameLayout, inuse₁ p, if_pos rfl]
        omega
      · rw [sameLayout]
        have bound := numObjects_lt (sound.stock.valid c).narrow
        unfold kFreelistSentinel at bound
        omega
  obtain ⟨s₂, lists', ran, sound₂, placed₂⟩ := relisted
  refine ⟨s₂, _, lists', ?_, sound₂, placed₂⟩
  rw [sound.stock.run_free build slab inside, run_bind pushed,
    run_bind run_load, run_bind run_load, stored]
  exact ran

end Sound

end AlkOS.Mem.KmemCache
