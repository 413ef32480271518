import AlkOS.Mem.Virt.AddressSpace

/-!
# The area list of an address space

`AddArea` compares a new area only with the areas up to its place in the list, and
computes ends modulo `2 ^ 64`. This keeps the list sorted and its areas disjoint as long
as no area reaches the top of the address space.
-/

namespace AlkOS.Mem.AddressSpace

open Kernel Containers LinkedList IntrusiveList Function

/-- The addresses of an area, modulo `2 ^ 64`. -/
def addresses (area : VMemArea) : Set (BitVec 64) :=
  { address | ∃ offset : BitVec 64, offset < area.size ∧ address = area.start + offset }

/-- The area ends below the top of the address space. -/
def BelowTop (area : VMemArea) : Prop := area.start.toNat + area.size.toNat < 2 ^ 64

/-- The node is on the area list. -/
def Listed (as : AddressSpace) (node : ℕ) : Prop :=
  OnList as.areaList.next as.areaList.head node

/-- The list is well formed and sorted by start, and its areas are pairwise disjoint. -/
structure SortedDisjoint (as : AddressSpace) (nodes : List ℕ) : Prop where
  shape : as.areaList.Represents nodes
  sorted : nodes.Pairwise fun a b => (as.areaAt a).start < (as.areaAt b).start
  disjoint : nodes.Pairwise fun a b => Disjoint (addresses (as.areaAt a)) (addresses (as.areaAt b))

variable {as as' : AddressSpace} {nodes front rest : List ℕ} {node vma count : ℕ}
  {allocated : Option ℕ} {area : VMemArea} {ptr : BitVec 64}

/-- The loop goes on behind the node. -/
def Passes (as : AddressSpace) (vma node : ℕ) : Prop :=
  areasOverlap (as.areaAt node) (as.vmas vma) = false ∧
    ¬ (as.vmas vma).start < (as.areaAt node).start

/-- The loop inserts the area in front of the node. -/
def Stops (as : AddressSpace) (vma node : ℕ) : Prop :=
  areasOverlap (as.areaAt node) (as.vmas vma) = false ∧
    (as.vmas vma).start < (as.areaAt node).start

/-- The list after an insertion between `front` and `rest`. -/
structure Inserted (as as' : AddressSpace) (vma node : ℕ) (front rest : List ℕ) : Prop where
  shape : as'.areaList.Represents (front ++ node :: rest)
  data : ∀ other, as'.areaList.data other =
    if other = node then vma else as.areaList.data other
  vmas : as'.vmas = as.vmas
  deleted : as'.deleted = as.deleted
  passed : ∀ other ∈ front, Passes as vma other
  stopped : ∀ other, rest.head? = some other → Stops as vma other

/-- `AddArea` rejects an area that overlaps a listed one, or for want of a node. -/
def Rejects (as : AddressSpace) (vma : ℕ) (allocated : Option ℕ) (nodes : List ℕ)
    (error : MemError) : Prop :=
  error = .invalidArgument ∧ (∃ node ∈ nodes, areasOverlap (as.areaAt node) (as.vmas vma)) ∨
    error = .outOfMemory ∧ allocated = none

/-- The loop rejects the area, or inserts it behind all areas that it passes. -/
theorem run_addAreaLoop (shape : as.areaList.Represents (front ++ rest))
    (fresh : ∀ node, allocated = some node → node ∉ front ++ rest)
    (passed : ∀ other ∈ front, Passes as vma other) (room : rest.length ≤ count) :
    (∃ error, (addAreaLoop vma allocated count rest.head?).run as =
        .ok (.error error) as ∧ Rejects as vma allocated (front ++ rest) error) ∨
      ∃ as' node front' rest', front ++ rest = front' ++ rest' ∧ allocated = some node ∧
        (addAreaLoop vma allocated count rest.head?).run as = .ok (.ok ()) as' ∧
        Inserted as as' vma node front' rest' := by
  induction rest generalizing front count with
  | nil =>
    cases allocated with
    | none => exact Or.inl ⟨.outOfMemory, by cases count <;> rfl, Or.inr ⟨rfl, rfl⟩⟩
    | some node =>
      rw [List.append_nil] at shape fresh
      refine Or.inr ⟨{ as with areaList := (as.areaList.pushBack (some node) vma).2 }, node,
        front, [], rfl, rfl, by cases count <;> rfl, ?_⟩
      exact ⟨shape.pushBack (fresh node rfl), fun _ => data_pushBack, rfl, rfl, passed,
        fun _ none_head => by cases none_head⟩
  | cons pos rest ih =>
    obtain ⟨count, rfl⟩ : ∃ smaller, count = smaller + 1 :=
      ⟨count - 1, by rw [List.length_cons] at room; omega⟩
    have unfolded : (addAreaLoop vma allocated (count + 1) (some pos)).run as =
        EStateM.run (if areasOverlap (as.areaAt pos) (as.vmas vma) then
          pure (.error .invalidArgument)
        else if (as.vmas vma).start < (as.areaAt pos).start then
          adopt _
        else addAreaLoop vma allocated count (as.areaList.next pos)) as := rfl
    rw [List.head?_cons, unfolded]
    by_cases overlap : areasOverlap (as.areaAt pos) (as.vmas vma)
    · rw [if_pos overlap]
      exact Or.inl ⟨.invalidArgument, rfl, Or.inl ⟨rfl, pos, by simp, overlap⟩⟩
    · rw [if_neg overlap]
      have apart := eq_false_of_ne_true overlap
      by_cases before : (as.vmas vma).start < (as.areaAt pos).start
      · rw [if_pos before, shape.prev_eq]
        have stops : ∀ other, (pos :: rest).head? = some other → Stops as vma other := by
          intro other first
          cases first
          exact ⟨apart, before⟩
        cases allocated with
        | none =>
          refine Or.inl ⟨.outOfMemory, ?_, Or.inr ⟨rfl, rfl⟩⟩
          cases front.getLast? with
          | none => rfl
          | some last => rfl
        | some node =>
          rcases List.eq_nil_or_concat' front with rfl | ⟨front, last, rfl⟩
          · exact Or.inr ⟨_, node, [], pos :: rest, rfl, rfl, rfl,
              shape.emplaceFront (fresh node rfl), fun _ => data_emplaceFront, rfl, rfl, passed,
              stops⟩
          · rw [List.getLast?_concat]
            rw [List.append_assoc] at shape fresh
            refine Or.inr ⟨_, node, front ++ [last], pos :: rest, rfl, rfl, rfl, ?_,
              fun _ => data_emplaceAfter, rfl, rfl, passed, stops⟩
            rw [List.append_assoc]
            exact shape.emplaceAfter (fresh node rfl)
      · rw [if_neg before, shape.next_eq]
        have split : front ++ pos :: rest = (front ++ [pos]) ++ rest := by
          rw [List.append_assoc, List.singleton_append]
        rw [split] at shape fresh ⊢
        apply ih shape fresh
        · exact List.forall_mem_append.mpr ⟨passed, List.forall_mem_singleton.mpr ⟨apart, before⟩⟩
        · rw [List.length_cons] at room
          omega

section

variable (shape : as.areaList.Represents nodes)
include shape

/-- `AddArea` of an aligned area rejects it and deletes it once, or inserts it. -/
theorem run_addArea (fresh : ∀ node, allocated = some node → node ∉ nodes)
    (startAligned : (as.vmas vma).start.toNat % kPageSizeBytes = 0)
    (sizeAligned : (as.vmas vma).size.toNat % kPageSizeBytes = 0) :
    (∃ error, (addArea vma allocated).run as = .ok (.error error) (as.kDelete vma) ∧
        Rejects as vma allocated nodes error) ∨
      ∃ as' node front rest, nodes = front ++ rest ∧ allocated = some node ∧
        (addArea vma allocated).run as = .ok (.ok ()) as' ∧
        Inserted as as' vma node front rest := by
  have unfolded : (addArea vma allocated).run as =
      (addAreaLoop vma allocated nodes.length nodes.head? >>= vmaGuard vma).run as := by
    rw [← shape.size, ← shape.linked.head_eq]
    unfold addArea
    rw [run_get_bind,
      run_bind (run_rAssertTrue startAligned),
      run_bind (run_rAssertTrue sizeAligned)]
  rw [unfolded]
  have whole : as.areaList.Represents ([] ++ nodes) := shape
  rcases run_addAreaLoop whole fresh (by simp) le_rfl with
    ⟨error, ran, why⟩ | ⟨as', node, front, rest, split, answer, ran, inserted⟩
  · refine Or.inl ⟨error, ?_, why⟩
    rw [run_bind ran]
    rfl
  · refine Or.inr ⟨as', node, front, rest, split, answer, ?_, inserted⟩
    rw [run_bind ran]
    rfl

omit shape in
/-- The loop of `FindArea` finds an area with the address, or none. -/
theorem run_findAreaLoop (shape : as.areaList.Represents (front ++ rest))
    (room : rest.length ≤ count) :
    (findAreaLoop ptr count rest.head?).run as = .ok (.error .notFound) as ∨
      ∃ node ∈ rest, isAddrInArea (as.areaAt node) ptr ∧
        (findAreaLoop ptr count rest.head?).run as = .ok (.ok node) as := by
  induction rest generalizing front count with
  | nil => exact Or.inl (by cases count <;> rfl)
  | cons pos rest ih =>
    obtain ⟨count, rfl⟩ : ∃ smaller, count = smaller + 1 :=
      ⟨count - 1, by rw [List.length_cons] at room; omega⟩
    have unfolded : (findAreaLoop ptr (count + 1) (some pos)).run as =
        EStateM.run (if isAddrInArea (as.areaAt pos) ptr then pure (.ok pos)
          else findAreaLoop ptr count (as.areaList.next pos)) as := rfl
    rw [List.head?_cons, unfolded]
    by_cases here : isAddrInArea (as.areaAt pos) ptr
    · rw [if_pos here]
      exact Or.inr ⟨pos, List.mem_cons_self, here, rfl⟩
    · rw [if_neg here, shape.next_eq]
      have split : front ++ pos :: rest = (front ++ [pos]) ++ rest := by
        rw [List.append_assoc, List.singleton_append]
      rw [split] at shape
      have shorter : rest.length ≤ count := by
        rw [List.length_cons] at room
        omega
      rcases ih shape shorter with
        missing | ⟨node, member, inside, ran⟩
      · exact Or.inl missing
      · exact Or.inr ⟨node, List.mem_cons_of_mem pos member, inside, ran⟩

/-- The area that holds an address. -/
theorem run_findAreaLocked (ptr : BitVec 64) :
    (findAreaLocked ptr).run as = .ok (.error .notFound) as ∨
      ∃ node ∈ nodes, isAddrInArea (as.areaAt node) ptr ∧
        (findAreaLocked ptr).run as = .ok (.ok node) as := by
  have unfolded : (findAreaLocked ptr).run as =
      (findAreaLoop ptr nodes.length nodes.head?).run as := by
    rw [← shape.size, ← shape.linked.head_eq]
    rfl
  rw [unfolded]
  have whole : as.areaList.Represents ([] ++ nodes) := shape
  exact run_findAreaLoop whole le_rfl

/-- `RmArea` finds no area and changes nothing, or unlinks and deletes one. -/
theorem run_rmArea (ptr : BitVec 64) :
    (rmArea ptr).run as = .ok (.error .notFound) as ∨
      ∃ node ∈ nodes, isAddrInArea (as.areaAt node) ptr ∧
        (rmArea ptr).run as = .ok (.ok ⟨(as.areaAt node).start, (as.areaAt node).size⟩)
          ({ as with areaList := as.areaList.remove (some node) }.kDelete
            (as.areaList.data node)) := by
  unfold rmArea
  rcases run_findAreaLocked shape ptr with missing | ⟨node, member, inside, ran⟩
  · rw [run_bind missing]
    exact Or.inl rfl
  · rw [run_bind ran]
    exact Or.inr ⟨node, member, inside, rfl⟩

/-- `UpdateAreaFlags` changes nothing, or the flags of one area. -/
theorem run_updateAreaFlags (setPageFlags : BitVec 64 → Hal.PageFlags → Except MemError Unit)
    (ptr : BitVec 64) (vmaf : VirtualMemAreaFlags) :
    (∃ error, (updateAreaFlags setPageFlags ptr vmaf).run as = .ok (.error error) as) ∨
      ∃ node ∈ nodes, (as.areaAt node).start = ptr ∧ ∃ result,
        (updateAreaFlags setPageFlags ptr vmaf).run as = .ok result
          { as with
            vmas := update as.vmas (as.areaList.data node)
              { as.areaAt node with flags := vmaf } } := by
  unfold updateAreaFlags
  rcases run_findAreaLocked shape ptr with missing | ⟨node, member, _, ran⟩
  · rw [run_bind missing]
    exact Or.inl ⟨_, rfl⟩
  · rw [run_bind ran]
    by_cases exact : (as.areaAt node).start = ptr
    · refine Or.inr ⟨node, member, exact, ?_⟩
      change ∃ result, EStateM.run (if (as.areaAt node).start ≠ ptr then _ else _) as = _
      rw [if_neg (not_not.mpr exact)]
      exact ⟨_, rfl⟩
    · refine Or.inl ⟨.invalidArgument, ?_⟩
      change EStateM.run (if (as.areaAt node).start ≠ ptr then _ else _) as = _
      rw [if_pos exact]
      rfl

end

/-- The first area ends where the second starts, or earlier. -/
def Before (a b : VMemArea) : Prop := a.start.toNat + a.size.toNat ≤ b.start.toNat

/-- A nonempty area below the top of the address space. -/
def Proper (area : VMemArea) : Prop := BelowTop area ∧ 0 < area.size.toNat

section Areas

variable {a b c : VMemArea}

theorem toNat_getEnd (proper : Proper a) : a.getEnd.toNat = a.start.toNat + a.size.toNat := by
  exact Nat.mod_eq_of_lt proper.1

theorem Before.trans (left : Before a b) (right : Before b c) : Before a c := by
  unfold Before at *
  omega

/-- An area that the loop passes ends before the new area starts. -/
theorem before_of_passes (properA : Proper a) (properB : Proper b)
    (apart : areasOverlap a b = false) (later : ¬ b.start < a.start) : Before a b := by
  have ends := toNat_getEnd properA
  have ends' := toNat_getEnd properB
  obtain ⟨_, nonempty⟩ := properB
  simp only [areasOverlap, Bool.and_eq_false_iff, decide_eq_false_iff_not, BitVec.lt_def]
    at apart later
  unfold Before
  omega

/-- An area at which the loop stops starts behind the new area. -/
theorem before_of_stops (properA : Proper a) (properB : Proper b)
    (apart : areasOverlap a b = false) (earlier : b.start < a.start) : Before b a := by
  have ends := toNat_getEnd properA
  have ends' := toNat_getEnd properB
  simp only [areasOverlap, Bool.and_eq_false_iff, decide_eq_false_iff_not, BitVec.lt_def]
    at apart earlier
  unfold Before
  omega

theorem Before.start_lt (before : Before a b) (proper : Proper a) : a.start < b.start := by
  have nonempty := proper.2
  unfold Before at before
  rw [BitVec.lt_def]
  omega

theorem toNat_of_mem_addresses (below : BelowTop a) {address : BitVec 64}
    (member : address ∈ addresses a) :
    a.start.toNat ≤ address.toNat ∧ address.toNat < a.start.toNat + a.size.toNat := by
  obtain ⟨offset, inside, rfl⟩ := member
  unfold BelowTop at below
  rw [BitVec.lt_def] at inside
  rw [BitVec.toNat_add]
  omega

theorem Before.disjoint (before : Before a b) (properA : Proper a) (properB : Proper b) :
    Disjoint (addresses a) (addresses b) := by
  apply Set.disjoint_left.mpr
  intro address inA inB
  have upper := toNat_of_mem_addresses properA.1 inA
  have lower := toNat_of_mem_addresses properB.1 inB
  unfold Before at before
  omega

end Areas

/-- The areas of the list lie one behind the other below the top. -/
structure Ordered (as : AddressSpace) (nodes : List ℕ) : Prop where
  shape : as.areaList.Represents nodes
  before : nodes.Pairwise fun a b => Before (as.areaAt a) (as.areaAt b)
  proper : ∀ node ∈ nodes, Proper (as.areaAt node)

namespace Ordered

theorem sortedDisjoint (ordered : Ordered as nodes) : SortedDisjoint as nodes where
  shape := ordered.shape
  sorted := ordered.before.imp_of_mem fun memberA _ before =>
    before.start_lt (ordered.proper _ memberA)
  disjoint := ordered.before.imp_of_mem fun memberA memberB before =>
    before.disjoint (ordered.proper _ memberA) (ordered.proper _ memberB)

/-- Only the ranges of the listed areas matter. -/
theorem congr (ordered : Ordered as nodes) (list : as'.areaList = as.areaList)
    (same : ∀ node ∈ nodes, (as'.areaAt node).start = (as.areaAt node).start ∧
      (as'.areaAt node).size = (as.areaAt node).size) : Ordered as' nodes where
  shape := list ▸ ordered.shape
  before := ordered.before.imp_of_mem fun {a b} memberA memberB before => by
    obtain ⟨startA, sizeA⟩ := same a memberA
    obtain ⟨startB, _⟩ := same b memberB
    unfold Before at *
    rw [startA, sizeA, startB]
    exact before
  proper := fun node member => by
    obtain ⟨sameStart, sameSize⟩ := same node member
    have proper := ordered.proper node member
    unfold Proper BelowTop at *
    rw [sameStart, sameSize]
    exact proper

/-- The loop's comparisons put a proper area between its neighbours. -/
theorem neighbours (ordered : Ordered as (front ++ rest)) (proper : Proper (as.vmas vma))
    (passed : ∀ other ∈ front, Passes as vma other)
    (stopped : ∀ other, rest.head? = some other → Stops as vma other) :
    (∀ other ∈ front, Before (as.areaAt other) (as.vmas vma)) ∧
      ∀ other ∈ rest, Before (as.vmas vma) (as.areaAt other) := by
  constructor
  · intro other member
    obtain ⟨apart, later⟩ := passed other member
    exact before_of_passes (ordered.proper other (List.mem_append_left rest member)) proper apart
      later
  · intro other member
    cases rest with
    | nil => cases member
    | cons first rest =>
      obtain ⟨apart, earlier⟩ := stopped first rfl
      have inside : first ∈ front ++ first :: rest :=
        List.mem_append_right front List.mem_cons_self
      have next := before_of_stops (ordered.proper first inside) proper apart earlier
      rcases List.mem_cons.mp member with rfl | later
      · exact next
      · have tail := (List.pairwise_append.mp ordered.before).2.1
        exact next.trans (List.rel_of_pairwise_cons tail later)

/-- An inserted area keeps the order. -/
theorem inserted (ordered : Ordered as (front ++ rest)) (proper : Proper (as.vmas vma))
    (fresh : node ∉ front ++ rest) (inserted : Inserted as as' vma node front rest) :
    Ordered as' (front ++ node :: rest) := by
  obtain ⟨below, above⟩ := ordered.neighbours proper inserted.passed inserted.stopped
  obtain ⟨pairsFront, pairsRest, across⟩ := List.pairwise_append.mp ordered.before
  have here : as'.areaAt node = as.vmas vma := by
    rw [areaAt, inserted.data, if_pos rfl, inserted.vmas]
  have there : ∀ other ∈ front ++ rest, as'.areaAt other = as.areaAt other := by
    intro other member
    have apart : other ≠ node := fun same => fresh (same ▸ member)
    rw [areaAt, inserted.data, if_neg apart, inserted.vmas, areaAt]
  have inFront : ∀ other ∈ front, as'.areaAt other = as.areaAt other := fun other member =>
    there other (List.mem_append_left rest member)
  have inRest : ∀ other ∈ rest, as'.areaAt other = as.areaAt other := fun other member =>
    there other (List.mem_append_right front member)
  refine ⟨inserted.shape, ?_, ?_⟩
  · refine List.pairwise_append.mpr ⟨?_, List.pairwise_cons.mpr ⟨?_, ?_⟩, ?_⟩
    · exact pairsFront.imp_of_mem fun memberA memberB before => by
        rw [inFront _ memberA, inFront _ memberB]
        exact before
    · intro other member
      rw [here, inRest other member]
      exact above other member
    · exact pairsRest.imp_of_mem fun memberA memberB before => by
        rw [inRest _ memberA, inRest _ memberB]
        exact before
    · intro left member right other
      rw [inFront left member]
      rcases List.mem_cons.mp other with rfl | later
      · rw [here]
        exact below left member
      · rw [inRest right later]
        exact across left member right later
  · intro other member
    rcases List.mem_append.mp member with left | right
    · rw [inFront other left]
      exact ordered.proper other (List.mem_append_left rest left)
    · rcases List.mem_cons.mp right with rfl | later
      · rw [here]
        exact proper
      · rw [inRest other later]
        exact ordered.proper other (List.mem_append_right front later)

/-- Removing an area keeps the order. -/
theorem removed (ordered : Ordered as (front ++ node :: rest)) :
    Ordered ({ as with areaList := as.areaList.remove (some node) }.kDelete vma)
      (front ++ rest) := by
  have kept : (front ++ rest).Sublist (front ++ node :: rest) :=
    (List.sublist_cons_self node rest).append_left front
  have same : ∀ other, ({ as with areaList := as.areaList.remove (some node) }.kDelete vma).areaAt
      other = as.areaAt other := by
    intro other
    change as.vmas ((as.areaList.remove (some node)).data other) = _
    rw [data_remove, areaAt]
  refine ⟨ordered.shape.remove, ?_, ?_⟩
  · simp only [same]
    exact ordered.before.sublist kept
  · intro other member
    rw [same]
    exact ordered.proper other (kept.subset member)

end Ordered

/-- An aligned nonempty area in an unlisted object, and an answer to the node allocation. -/
structure Addable (as : AddressSpace) (vma : ℕ) (area : VMemArea) (allocated : Option ℕ) :
    Prop where
  unowned : ∀ node, Listed as node → as.areaList.data node ≠ vma
  unused : ∀ node, allocated = some node → ¬ Listed as node
  startAligned : area.start.toNat % kPageSizeBytes = 0
  sizeAligned : area.size.toNat % kPageSizeBytes = 0
  nonempty : area.size ≠ 0

/-- The calls on the area list. -/
inductive Op where
  | addArea (area : VMemArea)
  | rmArea (ptr : BitVec 64)
  | updateAreaFlags (ptr : BitVec 64) (flags : VirtualMemAreaFlags)

/-- The call adds no area that reaches the top of the address space. -/
def Op.BelowTop : Op → Prop
  | addArea area => AddressSpace.BelowTop area
  | _ => True

/-- One returning call, whatever it answers. -/
inductive Step : Op → AddressSpace → AddressSpace → Prop where
  | addArea {as as' : AddressSpace} {vma : ℕ} {area : VMemArea} {allocated : Option ℕ}
      {result : Except MemError Unit} : Addable as vma area allocated →
      (addArea vma allocated).run (as.kNew vma area) = .ok result as' →
      Step (.addArea area) as as'
  | rmArea {as as' : AddressSpace} {ptr : BitVec 64} {result : Except MemError TlbHint} :
      (rmArea ptr).run as = .ok result as' → Step (.rmArea ptr) as as'
  | updateAreaFlags {as as' : AddressSpace} {ptr : BitVec 64} {flags : VirtualMemAreaFlags}
      {setPageFlags : BitVec 64 → Hal.PageFlags → Except MemError Unit}
      {result : Except MemError TlbHint} :
      (updateAreaFlags setPageFlags ptr flags).run as = .ok result as' →
      Step (.updateAreaFlags ptr flags) as as'

/-- Any number of calls that satisfy `allowed`. -/
def Run (allowed : Op → Prop) : AddressSpace → AddressSpace → Prop :=
  Relation.ReflTransGen fun as as' => ∃ op, allowed op ∧ Step op as as'

/-- A new address space over any store. -/
def empty (nodes : ℕ → Node ℕ) (vmas : ℕ → VMemArea) : AddressSpace :=
  ⟨⟨none, none, 0, nodes⟩, vmas, []⟩

theorem kNew_vmas : (as.kNew vma area).vmas vma = area := update_self ..

section

variable (addable : Addable as vma area allocated)
include addable

/-- Building an unowned object changes no listed area. -/
theorem Addable.areaAt_kNew (listed : Listed as node) :
    (as.kNew vma area).areaAt node = as.areaAt node :=
  update_of_ne (addable.unowned node listed) ..

theorem Addable.fresh (shape : as.areaList.Represents nodes) :
    ∀ node, allocated = some node → node ∉ nodes := fun node answer member =>
  addable.unused node answer (shape.linked.mem_iff_onList.mp member)

/-- `AddArea` returns; a rejection deletes the object once and changes nothing
else. -/
theorem Addable.run_addArea (shape : as.areaList.Represents nodes) :
    (∃ error, (AddressSpace.addArea vma allocated).run (as.kNew vma area) =
        .ok (.error error) ((as.kNew vma area).kDelete vma) ∧
        Rejects (as.kNew vma area) vma allocated nodes error) ∨
      ∃ as' node front rest, nodes = front ++ rest ∧ allocated = some node ∧
        (AddressSpace.addArea vma allocated).run (as.kNew vma area) = .ok (.ok ()) as' ∧
        Inserted (as.kNew vma area) as' vma node front rest := by
  have list : (as.kNew vma area).areaList.Represents nodes := shape
  apply AddressSpace.run_addArea list (addable.fresh shape)
  · rw [kNew_vmas]
    exact addable.startAligned
  · rw [kNew_vmas]
    exact addable.sizeAligned

end

namespace Ordered

theorem kNew (ordered : Ordered as nodes) (addable : Addable as vma area allocated) :
    Ordered (as.kNew vma area) nodes := by
  refine ordered.congr rfl ?_
  intro node member
  rw [addable.areaAt_kNew (ordered.shape.linked.mem_iff_onList.mp member)]
  exact ⟨rfl, rfl⟩

/-- An area that `AddArea` enters below the top was disjoint from all others. -/
theorem addArea (ordered : Ordered as (front ++ rest)) (addable : Addable as vma area allocated)
    (below : BelowTop area) (answer : allocated = some node)
    (inserted : Inserted (as.kNew vma area) as' vma node front rest) :
    Ordered as' (front ++ node :: rest) ∧
      ∀ other ∈ front ++ rest, Disjoint (addresses area) (addresses (as.areaAt other)) := by
  have positive : 0 < area.size.toNat := by
    apply Nat.pos_of_ne_zero
    intro zero
    exact addable.nonempty (BitVec.eq_of_toNat_eq zero)
  have built := ordered.kNew addable
  have proper : Proper ((as.kNew vma area).vmas vma) := by
    rw [kNew_vmas]
    exact ⟨below, positive⟩
  refine ⟨built.inserted proper (addable.fresh ordered.shape node answer) inserted, ?_⟩
  intro other member
  obtain ⟨lower, upper⟩ := built.neighbours proper inserted.passed inserted.stopped
  have listed := ordered.shape.linked.mem_iff_onList.mp member
  have properOther := built.proper other member
  rw [kNew_vmas] at lower upper proper
  rw [← addable.areaAt_kNew listed]
  rcases List.mem_append.mp member with left | right
  · exact ((lower other left).disjoint properOther proper).symm
  · exact (upper other right).disjoint proper properOther

/-- Every call keeps the order as long as added areas end below the top. -/
theorem step {op : Op} (ordered : Ordered as nodes) (below : op.BelowTop)
    (step : Step op as as') : ∃ nodes', Ordered as' nodes' := by
  cases step with
  | addArea addable ran =>
    rcases addable.run_addArea ordered.shape with
      ⟨error, ran', _⟩ | ⟨after, node, front, rest, rfl, answer, ran', inserted⟩
    · cases ran.symm.trans ran'
      exact ⟨nodes, (ordered.kNew addable).congr rfl fun _ _ => ⟨rfl, rfl⟩⟩
    · cases ran.symm.trans ran'
      exact ⟨_, (ordered.addArea addable below answer inserted).1⟩
  | @rmArea _ _ ptr _ ran =>
    rcases run_rmArea ordered.shape ptr with ran' | ⟨node, member, _, ran'⟩
    · cases ran.symm.trans ran'
      exact ⟨nodes, ordered⟩
    · cases ran.symm.trans ran'
      obtain ⟨front, rest, rfl⟩ := List.append_of_mem member
      exact ⟨front ++ rest, ordered.removed⟩
  | @updateAreaFlags _ _ ptr flags setPageFlags _ ran =>
    rcases run_updateAreaFlags ordered.shape setPageFlags ptr flags with
      ⟨error, ran'⟩ | ⟨node, member, _, result, ran'⟩
    · cases ran.symm.trans ran'
      exact ⟨nodes, ordered⟩
    · cases ran.symm.trans ran'
      refine ⟨nodes, ordered.congr rfl fun other _ => ?_⟩
      by_cases same : as.areaList.data other = as.areaList.data node
      · simp [areaAt, same]
      · simp [areaAt, update_of_ne same]

theorem run (ordered : Ordered as nodes) (run : Run Op.BelowTop as as') :
    ∃ nodes', Ordered as' nodes' := by
  induction run with
  | refl => exact ⟨nodes, ordered⟩
  | tail _ step ih =>
    obtain ⟨_, before⟩ := ih
    obtain ⟨_, below, step⟩ := step
    exact before.step below step

theorem empty (nodes : ℕ → Node ℕ) (vmas : ℕ → VMemArea) :
    Ordered (AddressSpace.empty nodes vmas) [] :=
  ⟨Represents.empty nodes, List.Pairwise.nil, fun _ member => by cases member⟩

end Ordered

variable {store : ℕ → Node ℕ} {vmas : ℕ → VMemArea}

/-- After any calls that add areas below the top only, the list is sorted and disjoint. The next
`AddArea` returns, succeeds only if its area is disjoint from all listed ones, and otherwise only
deletes the passed object. -/
theorem sortedDisjoint_of_run (run : Run Op.BelowTop (empty store vmas) as) :
    (∃ nodes, SortedDisjoint as nodes) ∧
      ∀ vma area allocated, Addable as vma area allocated → ∃ result as',
        (addArea vma allocated).run (as.kNew vma area) = .ok result as' ∧
        (result = .ok () → BelowTop area → ∀ node, Listed as node →
          Disjoint (addresses area) (addresses (as.areaAt node))) ∧
        ∀ error, result = .error error →
          as'.areaList = as.areaList ∧ as'.deleted = vma :: as.deleted := by
  obtain ⟨nodes, ordered⟩ := (Ordered.empty store vmas).run run
  refine ⟨⟨nodes, ordered.sortedDisjoint⟩, ?_⟩
  intro vma area allocated addable
  rcases addable.run_addArea ordered.shape with
    ⟨error, ran, _⟩ | ⟨as', node, front, rest, rfl, answer, ran, inserted⟩
  · refine ⟨_, _, ran, ?_, ?_⟩
    · intro succeeded
      cases succeeded
    · intro _ _
      exact ⟨rfl, rfl⟩
  · refine ⟨_, as', ran, ?_, ?_⟩
    · intro _ below other listed
      exact (ordered.addArea addable below answer inserted).2 other
        (ordered.shape.linked.mem_iff_onList.mpr listed)
    · intro error failed
      cases failed

/-- Adding an object that the store holds already, seen from the nodes of the list. -/
theorem step_of_linked {result : Except MemError Unit} (vma : ℕ) (allocated : Option ℕ)
    (linked : Linked as.areaList.next as.areaList.prev none as.areaList.head nodes)
    (fresh : ∀ node ∈ nodes, as.areaList.data node ≠ vma ∧ allocated ≠ some node)
    (proper : (as.vmas vma).start.toNat % kPageSizeBytes = 0 ∧
      (as.vmas vma).size.toNat % kPageSizeBytes = 0 ∧ (as.vmas vma).size ≠ 0)
    (ran : (addArea vma allocated).run as = .ok result as') :
    Step (.addArea (as.vmas vma)) as as' := by
  have same : as.kNew vma (as.vmas vma) = as := by
    unfold kNew
    rw [update_eq_self]
  refine .addArea ⟨?_, ?_, proper.1, proper.2.1, proper.2.2⟩ (by rw [same]; exact ran)
  · exact fun node listed => (fresh node (linked.mem_iff_onList.mpr listed)).1
  · exact fun node answer listed => (fresh node (linked.mem_iff_onList.mpr listed)).2 answer

/-- A store without contents. -/
def blankNodes : ℕ → Node ℕ := fun _ => ⟨0, none, none⟩

def onePage (start : BitVec 64) : VMemArea := ⟨start, 4096, ⟨true, true, false, false, false⟩⟩

variable (vmas)

/-- The address space after adding the first object. -/
def addedOnce : AddressSpace :=
  { empty blankNodes vmas with
    areaList := ((empty blankNodes vmas).areaList.pushBack (some 0) 0).2 }

/-- The address space after adding the second object behind the first. -/
def addedTwice : AddressSpace :=
  { addedOnce vmas with areaList := ((addedOnce vmas).areaList.pushBack (some 1) 1).2 }

/-- The address space after adding the second object in front of the first. -/
def addedFront : AddressSpace :=
  { addedOnce vmas with areaList := ((addedOnce vmas).areaList.emplaceFront (some 1) 1).2 }

theorem linked_empty : Linked (empty blankNodes vmas).areaList.next
    (empty blankNodes vmas).areaList.prev none (empty blankNodes vmas).areaList.head [] := rfl

theorem linked_addedOnce : Linked (addedOnce vmas).areaList.next (addedOnce vmas).areaList.prev none
    (addedOnce vmas).areaList.head [0] := ⟨rfl, rfl, rfl⟩

theorem linked_addedFront : Linked (addedFront vmas).areaList.next
    (addedFront vmas).areaList.prev none (addedFront vmas).areaList.head [1, 0] :=
  ⟨rfl, rfl, rfl, rfl, rfl⟩

theorem linked_addedTwice : Linked (addedTwice vmas).areaList.next
    (addedTwice vmas).areaList.prev none (addedTwice vmas).areaList.head [0, 1] :=
  ⟨rfl, rfl, rfl, rfl, rfl⟩

/-- A page, the page in front of it, and both of them. -/
def threeAreas : ℕ → VMemArea
  | 0 => onePage 8192
  | 1 => onePage 4096
  | _ => { onePage 4096 with size := 8192 }

/-- Two areas are added in reverse order, and one that overlaps them is rejected. -/
theorem sortedDisjoint_reversed :
    Run Op.BelowTop (empty blankNodes threeAreas) ((addedFront threeAreas).kDelete 2) ∧
      SortedDisjoint ((addedFront threeAreas).kDelete 2) [1, 0] := by
  have first : Step (.addArea (onePage 8192)) (empty blankNodes threeAreas)
      (addedOnce threeAreas) :=
    step_of_linked 0 (some 0) (linked_empty threeAreas) (by decide) (by decide) rfl
  have second : Step (.addArea (onePage 4096)) (addedOnce threeAreas) (addedFront threeAreas) :=
    step_of_linked 1 (some 1) (linked_addedOnce threeAreas) (by decide) (by decide) rfl
  have third : Step (.addArea { onePage 4096 with size := 8192 }) (addedFront threeAreas)
      ((addedFront threeAreas).kDelete 2) :=
    step_of_linked 2 none (linked_addedFront threeAreas) (by decide) (by decide) rfl
  have run : Run Op.BelowTop (empty blankNodes threeAreas) ((addedFront threeAreas).kDelete 2) := by
    refine .tail (.tail (.single ⟨_, ?_, first⟩) ⟨_, ?_, second⟩) ⟨_, ?_, third⟩
    · exact (by decide : 8192 + 4096 < 2 ^ 64)
    · exact (by decide : 4096 + 4096 < 2 ^ 64)
    · exact (by decide : 4096 + 8192 < 2 ^ 64)
  obtain ⟨nodes, sorted⟩ := (sortedDisjoint_of_run run).1
  cases sorted.shape.linked.nodes_unique (linked_addedFront threeAreas)
  exact ⟨run, sorted⟩

/-- The last page of the address space. -/
def topPage : BitVec 64 := 0xFFFFFFFFFFFFF000

/-- A new address space whose store holds copies of a one-page area. -/
def onePageSpace (start : BitVec 64) : AddressSpace := empty blankNodes fun _ => onePage start

/-- The end of an area at the top is 0, so it overlaps nothing and can be added
twice. -/
theorem topPage_listed_twice : ∃ as, Run (fun _ => True) (onePageSpace topPage) as ∧
    ¬ ∃ nodes, SortedDisjoint as nodes := by
  have first : Step _ (onePageSpace topPage) (addedOnce fun _ => onePage topPage) :=
    step_of_linked 0 (some 0) (linked_empty _) (by decide) (by decide) rfl
  have second : Step _ (addedOnce fun _ => onePage topPage) (addedTwice fun _ => onePage topPage) :=
    step_of_linked 1 (some 1) (linked_addedOnce _) (by decide) (by decide) rfl
  refine ⟨_, .tail (.single ⟨_, trivial, first⟩) ⟨_, trivial, second⟩, ?_⟩
  intro ⟨nodes, sorted⟩
  cases sorted.shape.linked.nodes_unique (linked_addedTwice _)
  have less : topPage < topPage := List.rel_of_pairwise_cons sorted.sorted List.mem_cons_self
  exact absurd less (by decide)

end AlkOS.Mem.AddressSpace
