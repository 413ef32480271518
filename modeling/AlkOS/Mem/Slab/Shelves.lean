import AlkOS.Mem.Slab.Changes

/-!
# Slabs and the lists they are on

`Sound` joins the stock of slabs with the lists: every slab of a cache is on one of its
lists. `Placed` says that every slab is on the list that fits its use count, apart from
those that a call still has to place.
-/

namespace AlkOS.Mem.KmemCache

open DyadicBlocks SlabLayout SlabHeap

/-- The list a slab with this many used objects belongs to. -/
def place (inuse numObjects : ℕ) : SlabList :=
  if inuse = numObjects then .full else if inuse = 0 then .free else .partly

/-- The counters of a cache are the lengths of its lists. -/
def Counted (cache : KmemCache) (lists : SlabList → List ℕ) : Prop :=
  cache.numSlabsPartial = (lists .partly).length ∧ cache.numSlabsFree = (lists .free).length ∧
    cache.numSlabsTotal = (lists .partly).length + (lists .full).length + (lists .free).length

/-- The slabs are on the lists, and the counters are right. -/
structure Shelved (s : SlabHeap) (lists : ℕ × SlabList → List ℕ) : Prop where
  shelves : Shelves s lists
  member : ∀ c p, s.IsSlab c p ↔ ∃ list, p ∈ lists (c, list)
  counted : ∀ c, Counted (s.caches c) fun list => lists (c, list)

/-- The bookkeeping of all caches. -/
structure Sound (w : SlabWorld) (layouts : ℕ → SlabLayout) (pool : Set ℕ) (free : ℕ → List ℕ)
    (chains : ℕ → List ℕ) (lists : ℕ × SlabList → List ℕ) : Prop where
  stock : Stock w layouts pool free chains
  shelved : Shelved w.heap lists

/-- Every slab, apart from those on their way, is on the list that fits it. -/
def Placed (s : SlabHeap) (lists : ℕ × SlabList → List ℕ) (moving : Set ℕ) : Prop :=
  ∀ c list, ∀ p ∈ lists (c, list), p ∉ moving →
    list = place (s.metaAt p).inuse (s.caches c).numObjects

variable {build : Build} {w : SlabWorld} {s s' : SlabHeap} {layouts : ℕ → SlabLayout} {pool : Set ℕ}
  {free chains : ℕ → List ℕ} {lists : ℕ × SlabList → List ℕ} {source target list : SlabList}
  {c d p q : ℕ}

theorem incr_eq {count : ℕ} (bound : count + 1 < 2 ^ 64) : incr count = count + 1 :=
  Nat.mod_eq_of_lt bound

theorem decr_eq {count : ℕ} (positive : 0 < count) (bound : count ≤ 2 ^ 64) :
    decr count = count - 1 := by
  unfold decr
  omega

/-- A counter of slabs after one of them moved. -/
def stepped (source target list : SlabList) (count : ℕ) : ℕ :=
  if list = target then incr count else if list = source then decr count else count

namespace Shelved

variable (shelved : Shelved s lists)
include shelved

theorem list_inside (member : p ∈ lists (c, list)) : p < s.buddy.pmt.numPageFrames :=
  ((shelved.member c p).mpr ⟨list, member⟩).1

theorem counts (c : ℕ) :
    (s.caches c).numSlabsPartial = (lists (c, .partly)).length ∧
      (s.caches c).numSlabsFree = (lists (c, .free)).length ∧
      (s.caches c).numSlabsTotal =
        (lists (c, .partly)).length + (lists (c, .full)).length + (lists (c, .free)).length :=
  shelved.counted c

/-- All lists of a cache together are shorter than the page table. -/
theorem length_le (c : ℕ) :
    (lists (c, .partly)).length + (lists (c, .full)).length + (lists (c, .free)).length ≤
      s.buddy.pmt.numPageFrames := by
  have family := shelved.shelves.family
  have nodup : (lists (c, .partly) ++ lists (c, .full) ++ lists (c, .free)).Nodup := by
    refine List.nodup_append.mpr ⟨List.nodup_append.mpr ⟨(family.linked _).nodup,
      (family.linked _).nodup, ?_⟩, (family.linked _).nodup, ?_⟩
    · rintro p left _ right rfl
      cases family.apart left right
    · rintro p left _ right rfl
      rcases List.mem_append.mp left with first | second
      · cases family.apart first right
      · cases family.apart second right
  have subset : (lists (c, .partly) ++ lists (c, .full) ++ lists (c, .free)).toFinset ⊆
      Finset.range s.buddy.pmt.numPageFrames := by
    intro p member
    rw [List.mem_toFinset, List.mem_append, List.mem_append] at member
    rw [Finset.mem_range]
    rcases member with (first | second) | third
    · exact shelved.list_inside first
    · exact shelved.list_inside second
    · exact shelved.list_inside third
  have bound := Finset.card_le_card subset
  rw [List.toFinset_card_of_nodup nodup, Finset.card_range, List.length_append,
    List.length_append] at bound
  exact bound

/-- No counter is near its limit. -/
theorem length_lt (c : ℕ) :
    (lists (c, .partly)).length + (lists (c, .full)).length + (lists (c, .free)).length + 1 <
      2 ^ 64 := by
  have bound := shelved.length_le c
  have addressable := s.buddy.pmt.addressable
  unfold kPageSizeBytes at addressable
  omega

/-- Lists and counters depend on links, heads and tags only. -/
theorem congr (caches : s'.caches = s.caches)
    (links : ∀ page, (s.metaAt page).type = .slab →
      s'.next page = s.next page ∧ s'.prev page = s.prev page)
    (slabs : s'.IsSlab = s.IsSlab) : Shelved s' lists := by
  have tagged := shelved.shelves.tagged
  refine ⟨⟨shelved.shelves.family.congr (heads_congr caches)
    (fun key page member => (links page (tagged key page member)).1)
    (fun key page member => (links page (tagged key page member)).2), ?_⟩, ?_, ?_⟩
  · rintro ⟨c, list⟩ p member
    have slab := (shelved.member c p).mpr ⟨list, member⟩
    rw [← slabs] at slab
    exact slab.2.1
  · rw [slabs]
    exact shelved.member
  · rw [caches]
    exact shelved.counted

end Shelved

theorem moved_apply (differ : source ≠ target) (key : ℕ × SlabList) :
    Shelves.moved lists c p source target key =
      if key = (c, target) then p :: lists key
      else if key = (c, source) then (lists key).erase p else lists key := by
  have other : (c, target) ≠ (c, source) := fun eq => differ (Prod.mk.inj eq).2.symm
  unfold Shelves.moved
  simp only [Function.update_apply]
  split_ifs with atTarget atSource
  · rw [atTarget]
  · rw [atSource]
  · rfl

section

variable (differ : source ≠ target) (member : p ∈ lists (c, source))
include differ member

/-- A moved slab is on its new list only. -/
theorem mem_moved (shelved : Shelved s lists) :
    q ∈ Shelves.moved lists c p source target (d, list) ↔
      if q = p then (d, list) = (c, target) else q ∈ lists (d, list) := by
  have family := shelved.shelves.family
  rw [moved_apply differ]
  by_cases same : q = p
  · subst same
    rw [if_pos rfl]
    by_cases atTarget : (d, list) = (c, target)
    · rw [if_pos atTarget]
      exact iff_of_true List.mem_cons_self atTarget
    · rw [if_neg atTarget]
      refine iff_of_false ?_ atTarget
      by_cases atSource : (d, list) = (c, source)
      · rw [if_pos atSource]
        exact fun kept => ((family.linked _).nodup.mem_erase_iff.mp kept).1 rfl
      · rw [if_neg atSource]
        exact fun kept => atSource (family.apart kept member)
  · rw [if_neg same]
    by_cases atTarget : (d, list) = (c, target)
    · rw [if_pos atTarget, List.mem_cons, or_iff_right same]
    · rw [if_neg atTarget]
      by_cases atSource : (d, list) = (c, source)
      · rw [if_pos atSource, List.mem_erase_of_ne same]
      · rw [if_neg atSource]

/-- The lengths of the lists after a move. -/
theorem length_moved :
    (Shelves.moved lists c p source target (c, list)).length =
      if list = target then (lists (c, list)).length + 1
      else if list = source then (lists (c, list)).length - 1 else (lists (c, list)).length := by
  rw [moved_apply differ]
  by_cases atTarget : list = target
  · subst atTarget
    rw [if_pos rfl, if_pos rfl, List.length_cons]
  · rw [if_neg (fun eq => atTarget (Prod.mk.inj eq).2), if_neg atTarget]
    by_cases atSource : list = source
    · subst atSource
      rw [if_pos rfl, if_pos rfl, List.length_erase_of_mem member]
    · rw [if_neg (fun eq => atSource (Prod.mk.inj eq).2), if_neg atSource]

/-- Counters that follow a move. -/
theorem Shelved.counted_moved (shelved : Shelved s lists) {cache : KmemCache}
    (partly : cache.numSlabsPartial = stepped source target .partly (s.caches c).numSlabsPartial)
    (free : cache.numSlabsFree = stepped source target .free (s.caches c).numSlabsFree)
    (total : cache.numSlabsTotal = (s.caches c).numSlabsTotal) :
    Counted cache fun list => Shelves.moved lists c p source target (c, list) := by
  obtain ⟨partial_eq, free_eq, total_eq⟩ := shelved.counts c
  have positive := List.length_pos_of_mem member
  have lengths : ∀ list, stepped source target list (lists (c, list)).length =
      (Shelves.moved lists c p source target (c, list)).length := by
    intro list
    have limit : (lists (c, list)).length + 1 < 2 ^ 64 := by
      have all := shelved.length_lt c
      cases list <;> omega
    rw [length_moved differ member, stepped, incr_eq limit]
    split_ifs with _ atSource
    · rfl
    · rw [atSource] at limit ⊢
      exact decr_eq positive (by omega)
    · rfl
  refine ⟨partly.trans (partial_eq ▸ lengths .partly), free.trans (free_eq ▸ lengths .free), ?_⟩
  rw [length_moved differ member, length_moved differ member,
    length_moved differ member]
  -- One list is a slab longer and another one shorter.
  cases source <;> cases target <;> simp only [reduceCtorEq, ↓reduceIte, ne_eq,
    not_true_eq_false] at differ ⊢ <;> omega

end

namespace Sound

/-- Slabs are relinked, and the counters of one cache follow. -/
theorem relink {touched : Set ℕ} (stock : Stock w layouts pool free chains)
    (relinked : w.heap.Relinked s' touched) (shelves : Shelves s' lists)
    (slabs : ∀ page ∈ touched, ∃ d, w.heap.IsSlab d page)
    (members : ∀ d q, w.heap.IsSlab d q ↔ ∃ list, q ∈ lists (d, list))
    (change : KmemCache → KmemCache)
    (layoutSame : ∀ cache, (change cache).toSlabLayout = cache.toSlabLayout)
    (slabsSame : ∀ cache, (change cache).slabs = cache.slabs)
    (counted : ∀ slabs, Counted (change { w.heap.caches c with slabs := slabs })
      fun list => lists (c, list))
    (others : ∀ d, d ≠ c → Counted (w.heap.caches d) fun list => lists (d, list)) :
    Sound ⟨s'.setCache c (change (s'.caches c)), w.live, w.blocks⟩ layouts pool free chains lists ∧
      KeepsArrays w.heap (s'.setCache c (change (s'.caches c))) ∧
      ∀ page, (s'.metaAt page).inuse = (w.heap.metaAt page).inuse := by
  have stock' := (stock.relink relinked slabs).recount c (change (s'.caches c)) (layoutSame _)
  have same : SameSlabs w.heap (s'.setCache c (change (s'.caches c))) :=
    .of_kept (fun d => (stock'.layout d).trans (stock.layout d).symm) relinked.numPageFrames
      (fun page _ type => (relinked.sameType page).symm.trans type)
      fun page _ => relinked.onlyLinks page
  refine ⟨⟨stock', ⟨?_, same.isSlab ▸ members, fun d => ?_⟩⟩, .of_same same, fun page => ?_⟩
  · refine ⟨shelves.family.congr ?_ (fun _ _ _ => rfl) (fun _ _ _ => rfl), shelves.tagged⟩
    funext ⟨d, list⟩
    change (Function.update s'.caches c (change (s'.caches c)) d).slabs list =
      (s'.caches d).slabs list
    rw [Function.update_apply]
    split_ifs with here
    · rw [here, slabsSame]
    · rfl
  · change Counted (Function.update s'.caches c (change (s'.caches c)) d) _
    rw [Function.update_apply]
    split_ifs with here
    · rw [here, relinked.caches c]
      exact counted _
    · rw [relinked.caches d]
      exact others d here
  · rw [relinked.onlyLinks page]

/-- A slab moves to another list of its cache, and the counters follow. -/
theorem move (build : Build) (sound : Sound w layouts pool free chains lists)
    (member : p ∈ lists (c, source)) (differ : source ≠ target) (change : KmemCache → KmemCache)
    (layoutSame : ∀ cache, (change cache).toSlabLayout = cache.toSlabLayout)
    (slabsSame : ∀ cache, (change cache).slabs = cache.slabs)
    (counted : ∀ slabs, Counted (change { w.heap.caches c with slabs := slabs })
      fun list => Shelves.moved lists c p source target (c, list)) :
    ∃ s', EStateM.run (do
        moveTo target build c p
        update c change) w.heap = .ok () s' ∧
      Sound ⟨s', w.live, w.blocks⟩ layouts pool free chains
        (Shelves.moved lists c p source target) ∧
      KeepsArrays w.heap s' ∧ ∀ page, (s'.metaAt page).inuse = (w.heap.metaAt page).inuse := by
  obtain ⟨middle, ran, shelves, relinked⟩ := sound.shelved.shelves.moveTo build target member
  refine ⟨_, by rw [Kernel.run_bind ran]; exact run_update,
    relink sound.stock relinked shelves ?_ (fun d q => ?_) change layoutSame slabsSame counted
      fun d here => ?_⟩
  · rintro page ⟨⟨d, list⟩, listed⟩
    exact ⟨d, (sound.shelved.member d page).mpr ⟨list, listed⟩⟩
  · rw [sound.shelved.member d q]
    have moved : ∀ list, q ∈ Shelves.moved lists c p source target (d, list) ↔ _ := fun list =>
      mem_moved differ member sound.shelved
    simp only [moved]
    by_cases here : q = p
    · subst here
      simp only [Prod.mk.injEq]
      constructor
      · rintro ⟨list, listed⟩
        have key := sound.shelved.shelves.family.apart listed member
        exact ⟨target, (Prod.mk.inj key).1, rfl⟩
      · rintro ⟨_, rfl, _⟩
        exact ⟨source, member⟩
    · simp only [here, ↓reduceIte]
  · have same : (fun list => Shelves.moved lists c p source target (d, list)) =
        fun list => lists (d, list) := by
      funext list
      have target' : (d, list) ≠ (c, target) := fun eq => here (Prod.mk.inj eq).1
      have source' : (d, list) ≠ (c, source) := fun eq => here (Prod.mk.inj eq).1
      rw [moved_apply differ, if_neg target', if_neg source']
    rw [same]
    exact sound.shelved.counted d

end Sound

end AlkOS.Mem.KmemCache
