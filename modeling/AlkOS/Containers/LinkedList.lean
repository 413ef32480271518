import AlkOS.Foundation.IntrusiveList

/-!
# Doubly linked lists

`data_structures::LinkedList` with its nodes in a store that is addressed by
node numbers. Node allocation may fail; its answer is an argument of the
inserting operations.
-/

namespace AlkOS.Containers

open IntrusiveList Function

structure Node (α : Type) where
  data : α
  next : Option ℕ
  prev : Option ℕ
deriving Repr

/-- A list head over a store of nodes. -/
structure LinkedList (α : Type) where
  head : Option ℕ
  tail : Option ℕ
  size : ℕ
  nodes : ℕ → Node α

namespace LinkedList

variable {α : Type}

def next (l : LinkedList α) (node : ℕ) : Option ℕ := (l.nodes node).next

def prev (l : LinkedList α) (node : ℕ) : Option ℕ := (l.nodes node).prev

def data (l : LinkedList α) (node : ℕ) : α := (l.nodes node).data

/-- Overwrite a node. -/
def setNode (l : LinkedList α) (node : ℕ) (value : Node α) : LinkedList α :=
  { l with nodes := update l.nodes node value }

/-- Write a node's `next` link. -/
def setNext (l : LinkedList α) (node : ℕ) (link : Option ℕ) : LinkedList α :=
  l.setNode node { l.nodes node with next := link }

/-- Write a node's `prev` link. -/
def setPrev (l : LinkedList α) (node : ℕ) (link : Option ℕ) : LinkedList α :=
  l.setNode node { l.nodes node with prev := link }

/-- `EmplaceFront` with the allocator's answer. -/
def emplaceFront (l : LinkedList α) (allocated : Option ℕ) (value : α) :
    Option ℕ × LinkedList α :=
  match allocated with
  | none => (none, l)
  | some node =>
    let linked := l.setNode node { data := value, prev := none, next := l.head }
    let linked := match l.head with
      | some first => linked.setPrev first (some node)
      | none => linked
    (some node, { linked with
      head := some node
      tail := if l.tail = none then some node else l.tail
      size := l.size + 1 })

/-- `PushBack` with the allocator's answer. -/
def pushBack (l : LinkedList α) (allocated : Option ℕ) (value : α) : Option ℕ × LinkedList α :=
  match allocated with
  | none => (none, l)
  | some node =>
    let linked := l.setNode node { data := value, prev := l.tail, next := none }
    let linked := match l.tail with
      | some last => linked.setNext last (some node)
      | none => linked
    (some node, { linked with
      tail := some node
      head := if l.head = none then some node else l.head
      size := l.size + 1 })

/-- `EmplaceAfter` with the allocator's answer. -/
def emplaceAfter (l : LinkedList α) (after : Option ℕ) (allocated : Option ℕ) (value : α) :
    Option ℕ × LinkedList α :=
  match after, allocated with
  | none, _ => (none, l)
  | some _, none => (none, l)
  | some after, some node =>
    let linked := l.setNode node { data := value, next := l.next after, prev := some after }
    let linked := match l.next after with
      | some second => linked.setPrev second (some node)
      | none => { linked with tail := some node }
    (some node, { linked.setNext after (some node) with size := l.size + 1 })

/-- The link that led to a node leads to its successor. -/
def bypassNext (l : LinkedList α) (node : ℕ) : LinkedList α :=
  match l.prev node with
  | some before => l.setNext before (l.next node)
  | none => { l with head := l.next node }

/-- The link that led back to a node leads to its predecessor. -/
def bypassPrev (l : LinkedList α) (node : ℕ) : LinkedList α :=
  match l.next node with
  | some after => l.setPrev after (l.prev node)
  | none => { l with tail := l.prev node }

def remove (l : LinkedList α) (node : Option ℕ) : LinkedList α :=
  match node with
  | none => l
  | some node => { (l.bypassNext node).bypassPrev node with size := l.size - 1 }

/-- The list holds the given nodes in the given order. -/
structure Represents (l : LinkedList α) (nodes : List ℕ) : Prop where
  linked : Linked l.next l.prev none l.head nodes
  tail : l.tail = nodes.getLast?
  size : l.size = nodes.length

variable {l : LinkedList α} {nodes front rest : List ℕ} {node other after : ℕ} {value : α}
  {entry : Node α} {link : Option ℕ}

@[simp] theorem next_setNode :
    (l.setNode node entry).next other = if other = node then entry.next else l.next other := by
  simp only [next, setNode, update_apply]
  split <;> rfl

@[simp] theorem prev_setNode :
    (l.setNode node entry).prev other = if other = node then entry.prev else l.prev other := by
  simp only [prev, setNode, update_apply]
  split <;> rfl

@[simp] theorem data_setNode :
    (l.setNode node entry).data other = if other = node then entry.data else l.data other := by
  simp only [data, setNode, update_apply]
  split <;> rfl

@[simp] theorem next_setNext :
    (l.setNext node link).next other = if other = node then link else l.next other := by
  simp only [setNext, next_setNode]

@[simp] theorem prev_setNext : (l.setNext node link).prev other = l.prev other := by
  simp only [setNext, prev_setNode]
  split
  · subst other
    rfl
  · rfl

@[simp] theorem data_setNext : (l.setNext node link).data other = l.data other := by
  simp only [setNext, data_setNode]
  split
  · subst other
    rfl
  · rfl

@[simp] theorem next_setPrev : (l.setPrev node link).next other = l.next other := by
  simp only [setPrev, next_setNode]
  split
  · subst other
    rfl
  · rfl

@[simp] theorem prev_setPrev :
    (l.setPrev node link).prev other = if other = node then link else l.prev other := by
  simp only [setPrev, prev_setNode]

@[simp] theorem data_setPrev : (l.setPrev node link).data other = l.data other := by
  simp only [setPrev, data_setNode]
  split
  · subst other
    rfl
  · rfl

theorem next_emplaceFront : (l.emplaceFront (some node) value).2.next other =
    if other = node then l.head else l.next other := by
  unfold emplaceFront
  cases l.head with
  | none => exact next_setNode
  | some first => exact next_setPrev.trans next_setNode

theorem prev_emplaceFront : (l.emplaceFront (some node) value).2.prev other =
    if l.head = some other then some node else if other = node then none else l.prev other := by
  unfold emplaceFront
  cases l.head with
  | none =>
    exact prev_setNode
  | some first =>
    simp only [Option.some.injEq, eq_comm (a := first)]
    exact prev_setPrev.trans (by rw [prev_setNode])

theorem data_emplaceFront : (l.emplaceFront (some node) value).2.data other =
    if other = node then value else l.data other := by
  unfold emplaceFront
  cases l.head with
  | none => exact data_setNode
  | some first => exact data_setPrev.trans data_setNode

theorem data_pushBack :
    (l.pushBack (some node) value).2.data other =
      if other = node then value else l.data other := by
  unfold pushBack
  cases l.tail with
  | none => exact data_setNode
  | some last => exact data_setNext.trans data_setNode

theorem next_emplaceAfter : (l.emplaceAfter (some after) (some node) value).2.next other =
    if other = after then some node else if other = node then l.next after else l.next other := by
  apply next_setNext.trans
  cases l.next after with
  | none => exact congrArg _ next_setNode
  | some second => exact congrArg _ (next_setPrev.trans next_setNode)

theorem prev_emplaceAfter : (l.emplaceAfter (some after) (some node) value).2.prev other =
    if l.next after = some other then some node
    else if other = node then some after else l.prev other := by
  apply prev_setNext.trans
  cases l.next after with
  | none =>
    exact prev_setNode
  | some second =>
    simp only [Option.some.injEq, eq_comm (a := second)]
    exact prev_setPrev.trans (by rw [prev_setNode])

theorem data_emplaceAfter : (l.emplaceAfter (some after) (some node) value).2.data other =
    if other = node then value else l.data other := by
  apply data_setNext.trans
  cases l.next after with
  | none => exact data_setNode
  | some second => exact data_setPrev.trans data_setNode

theorem next_bypassNext : (l.bypassNext node).next other =
    if l.prev node = some other then l.next node else l.next other := by
  unfold bypassNext
  cases l.prev node with
  | none =>
    rfl
  | some before =>
    simp only [Option.some.injEq, eq_comm (a := before)]
    exact next_setNext

theorem next_bypassNext_self : (l.bypassNext node).next node = l.next node := by
  rw [next_bypassNext]
  split <;> rfl

theorem prev_bypassNext : (l.bypassNext node).prev other = l.prev other := by
  unfold bypassNext
  cases l.prev node with
  | none => rfl
  | some before => exact prev_setNext

theorem data_bypassNext : (l.bypassNext node).data other = l.data other := by
  unfold bypassNext
  cases l.prev node with
  | none => rfl
  | some before => exact data_setNext

theorem next_bypassPrev : (l.bypassPrev node).next other = l.next other := by
  unfold bypassPrev
  cases l.next node with
  | none => rfl
  | some after => exact next_setPrev

theorem prev_bypassPrev : (l.bypassPrev node).prev other =
    if l.next node = some other then l.prev node else l.prev other := by
  unfold bypassPrev
  cases l.next node with
  | none =>
    rfl
  | some after =>
    simp only [Option.some.injEq, eq_comm (a := after)]
    exact prev_setPrev

theorem data_bypassPrev : (l.bypassPrev node).data other = l.data other := by
  unfold bypassPrev
  cases l.next node with
  | none => rfl
  | some after => exact data_setPrev

theorem next_remove : (l.remove (some node)).next other =
    if l.prev node = some other then l.next node else l.next other :=
  next_bypassPrev.trans next_bypassNext

theorem prev_remove : (l.remove (some node)).prev other =
    if l.next node = some other then l.prev node else l.prev other := by
  apply prev_bypassPrev.trans
  rw [next_bypassNext_self, prev_bypassNext, prev_bypassNext]

theorem data_remove : (l.remove (some node)).data other = l.data other :=
  data_bypassPrev.trans data_bypassNext

theorem head_remove : (l.remove (some node)).head =
    if l.prev node = none then l.next node else l.head := by
  have kept : (l.remove (some node)).head = (l.bypassNext node).head := by
    change ((l.bypassNext node).bypassPrev node).head = _
    unfold bypassPrev
    cases (l.bypassNext node).next node with
    | none => rfl
    | some after => rfl
  rw [kept]
  unfold bypassNext
  cases l.prev node with
  | none => rfl
  | some before => rfl

theorem tail_remove : (l.remove (some node)).tail =
    if l.next node = none then l.prev node else l.tail := by
  change ((l.bypassNext node).bypassPrev node).tail = _
  unfold bypassPrev
  rw [next_bypassNext_self, prev_bypassNext]
  cases l.next node with
  | none => rfl
  | some after =>
    unfold bypassNext
    cases l.prev node with
    | none => rfl
    | some before => rfl

theorem tail_emplaceAfter : (l.emplaceAfter (some after) (some node) value).2.tail =
    if l.next after = none then some node else l.tail := by
  simp only [emplaceAfter]
  cases l.next after with
  | none => rfl
  | some second => rfl

theorem head_emplaceAfter : (l.emplaceAfter (some after) (some node) value).2.head = l.head := by
  simp only [emplaceAfter]
  cases l.next after with
  | none => rfl
  | some second => rfl

/-- Pushing behind the last node is inserting after it. -/
theorem pushBack_eq_emplaceAfter {last : ℕ} (ends : l.tail = some last)
    (none_next : l.next last = none) (nonempty : l.head ≠ none) :
    l.pushBack (some node) value = l.emplaceAfter (some last) (some node) value := by
  simp only [pushBack, emplaceAfter, ends, none_next, if_neg nonempty]
  rfl

namespace Represents

theorem empty (nodes : ℕ → Node α) : Represents ⟨none, none, 0, nodes⟩ [] := ⟨rfl, rfl, rfl⟩

theorem next_eq (shape : Represents l (front ++ node :: rest)) : l.next node = rest.head? :=
  shape.linked.links_of_split.1

theorem prev_eq (shape : Represents l (front ++ node :: rest)) : l.prev node = front.getLast? :=
  shape.linked.links_of_split.2.trans (Option.or_none ..)

/-- A node is inserted in front. -/
theorem emplaceFront (shape : Represents l nodes) (fresh : node ∉ nodes) :
    Represents (l.emplaceFront (some node) value).2 (node :: nodes) where
  linked := by
    have apart : ∀ other ∈ nodes, other ≠ node := fun other listed same => fresh (same ▸ listed)
    have notHead : l.head ≠ some node := by
      intro same
      rw [shape.linked.head_eq] at same
      exact fresh (List.mem_of_head? same)
    apply shape.linked.push
    · rw [next_emplaceFront, if_pos rfl]
    · rw [prev_emplaceFront, if_neg notHead, if_pos rfl]
    · intro other listed
      rw [next_emplaceFront, if_neg (apart other listed)]
    · intro other first
      rw [prev_emplaceFront, if_pos first]
    · intro other listed notFirst
      rw [prev_emplaceFront, if_neg notFirst, if_neg (apart other listed)]
  tail := by
    have kept : (l.emplaceFront (some node) value).2.tail =
        if l.tail = none then some node else l.tail := by
      cases l.head with
      | none => rfl
      | some first => rfl
    rw [kept, shape.tail, List.getLast?_cons]
    cases nodes.getLast? with
    | none => rfl
    | some last => rfl
  size := by
    have grown : (l.emplaceFront (some node) value).2.size = l.size + 1 := by
      cases l.head with
      | none => rfl
      | some first => rfl
    rw [grown, shape.size, List.length_cons]

/-- A node is inserted after a listed one. -/
theorem emplaceAfter (shape : Represents l (front ++ after :: rest))
    (fresh : node ∉ front ++ after :: rest) :
    Represents (l.emplaceAfter (some after) (some node) value).2
      (front ++ after :: node :: rest) where
  linked := by
    have apart : ∀ other ∈ front ++ after :: rest, other ≠ node :=
      fun other listed same => fresh (same ▸ listed)
    have inside : after ∈ front ++ after :: rest :=
      List.mem_append_right front List.mem_cons_self
    have notNext : l.next after ≠ some node := fun link =>
      fresh (shape.linked.prev_of_next inside link).1
    rw [head_emplaceAfter]
    apply shape.linked.insertAfter
    · rw [next_emplaceAfter, if_pos rfl]
    · rw [next_emplaceAfter, if_neg (apart after inside).symm, if_pos rfl]
    · rw [prev_emplaceAfter, if_neg notNext, if_pos rfl]
    · intro other link
      rw [prev_emplaceAfter, if_pos link]
    · intro other listed notAfter
      rw [next_emplaceAfter, if_neg notAfter, if_neg (apart other listed)]
    · intro other listed notLink
      rw [prev_emplaceAfter, if_neg notLink, if_neg (apart other listed)]
  tail := by
    rw [tail_emplaceAfter, shape.next_eq, shape.tail]
    cases rest with
    | nil => simp
    | cons second rest => simp
  size := by
    have grown : (l.emplaceAfter (some after) (some node) value).2.size = l.size + 1 := rfl
    rw [grown, shape.size]
    simp only [List.length_append, List.length_cons]
    omega

/-- A node is inserted at the end. -/
theorem pushBack (shape : Represents l nodes) (fresh : node ∉ nodes) :
    Represents (l.pushBack (some node) value).2 (nodes ++ [node]) := by
  rcases List.eq_nil_or_concat' nodes with rfl | ⟨front, last, rfl⟩
  · have none_head : l.head = none := shape.linked.nil_iff.mp rfl
    have none_tail : l.tail = none := shape.tail
    have none_size : l.size = 0 := shape.size
    simp only [LinkedList.pushBack, none_tail, none_head, none_size]
    refine ⟨⟨rfl, ?_, ?_⟩, rfl, rfl⟩
    · exact prev_setNode.trans (if_pos rfl)
    · exact next_setNode.trans (if_pos rfl)
  · have ends : l.tail = some last := by rw [shape.tail, List.getLast?_concat]
    have nonempty : l.head ≠ none := fun none_head =>
      List.append_ne_nil_of_right_ne_nil front (List.cons_ne_nil last [])
        (shape.linked.nil_iff.mpr none_head)
    rw [pushBack_eq_emplaceAfter ends shape.next_eq nonempty, List.append_assoc]
    exact shape.emplaceAfter fresh

/-- A listed node is removed. -/
theorem remove (shape : Represents l (front ++ node :: rest)) :
    Represents (l.remove (some node)) (front ++ rest) where
  linked := by
    have listed : node ∈ front ++ node :: rest := List.mem_append_right front List.mem_cons_self
    have outside : node ∉ front := by
      intro again
      exact List.disjoint_of_nodup_append shape.linked.nodup again List.mem_cons_self
    have joined := shape.linked.unlink listed (fun other _ _ => next_remove)
      (fun other _ _ => prev_remove) (fun _ link => by cases link)
    rw [List.erase_append_right _ outside, List.erase_cons_head] at joined
    have first : l.head = some node ↔ l.prev node = none := by
      rw [shape.prev_eq, shape.linked.head_eq]
      cases front with
      | nil => simp
      | cons first front =>
        have apart : first ≠ node := fun same => outside (same ▸ List.mem_cons_self)
        simp [apart]
    rw [head_remove]
    simpa only [first] using joined
  tail := by
    rw [tail_remove, shape.next_eq, shape.prev_eq, shape.tail]
    cases rest with
    | nil => simp
    | cons second rest => simp
  size := by
    change l.size - 1 = _
    rw [shape.size]
    simp only [List.length_append, List.length_cons]
    omega

end Represents

end LinkedList

end AlkOS.Containers
