import Mathlib

/-!
# Doubly linked lists kept in the nodes themselves

An intrusive list stores its links in the linked objects. The rules follow the usual
pointer surgery: pushing at the front, unlinking a node, inserting after a node, and
writing to objects that are not on the list. `Family` lifts them to several lists that
share the links.
-/

namespace IntrusiveList

open Function

variable {ι : Type*} {next prev next' prev' : ι → Option ι} {before head before' : Option ι}
  {nodes nodes' : List ι} {node other : ι}

/-- The links starting at `head` spell out `nodes`, and the `prev` links
mirror the `next` links. -/
def Linked (next prev : ι → Option ι) : Option ι → Option ι → List ι → Prop
  | _, head, [] => head = none
  | before, head, node :: rest =>
    head = some node ∧ prev node = before ∧ Linked next prev (some node) (next node) rest

/-- The node is met when `next` is followed from `head`. -/
inductive OnList (next : ι → Option ι) : Option ι → ι → Prop where
  | here (node : ι) : OnList next (some node) node
  | later {node other : ι} : OnList next (next node) other → OnList next (some node) other

namespace Linked

section

variable (linked : Linked next prev before head nodes)
include linked

theorem head_eq : head = nodes.head? := by
  cases nodes with
  | nil => exact linked
  | cons node rest => exact linked.1

theorem nil_iff : nodes = [] ↔ head = none := by
  rw [linked.head_eq, List.head?_eq_none_iff]

theorem head_mem (first : head = some node) :
    node ∈ nodes :=
  List.mem_of_head? (linked.head_eq.symm.trans first)

omit linked in
/-- A list with a head is that head followed by the list its link starts. -/
theorem cons_of_head (linked : Linked next prev before (some node) nodes) :
    ∃ rest, nodes = node :: rest ∧ prev node = before ∧
      Linked next prev (some node) (next node) rest := by
  cases nodes with
  | nil => cases linked
  | cons first rest =>
    obtain ⟨same, back, tail⟩ := linked
    cases same
    exact ⟨rest, rfl, back, tail⟩

/-- Only the links of the listed nodes matter. -/
theorem congr (sameNext : ∀ node ∈ nodes, next' node = next node)
    (samePrev : ∀ node ∈ nodes, prev' node = prev node) :
    Linked next' prev' before head nodes := by
  induction nodes generalizing before head with
  | nil => exact linked
  | cons node rest ih =>
    obtain ⟨same, back, tail⟩ := linked
    refine ⟨same, (samePrev node List.mem_cons_self).trans back, ?_⟩
    rw [sameNext node List.mem_cons_self]
    exact ih tail (fun other member => sameNext other (List.mem_cons_of_mem node member))
      (fun other member => samePrev other (List.mem_cons_of_mem node member))

end

/-- A head and its links determine the listed nodes. -/
theorem nodes_unique (left : Linked next prev before head nodes)
    (right : Linked next prev' before' head nodes') : nodes = nodes' := by
  induction nodes generalizing before head before' nodes' with
  | nil =>
    have empty : head = none := left
    exact (right.nil_iff.mpr empty).symm
  | cons node rest ih =>
    obtain ⟨rfl, _, tail⟩ := left
    obtain ⟨rest', rfl, _, tail'⟩ := right.cons_of_head
    rw [ih tail tail']

section

variable (linked : Linked next prev before head nodes)
include linked

/-- From every listed node, its own link continues the list. -/
theorem suffix_of_mem (member : node ∈ nodes) :
    ∃ front rest, nodes = front ++ node :: rest ∧
      Linked next prev (some node) (next node) rest := by
  induction nodes generalizing before head with
  | nil => cases member
  | cons first rest ih =>
    obtain ⟨_, _, tail⟩ := linked
    rcases List.mem_cons.mp member with rfl | later
    · exact ⟨[], rest, rfl, tail⟩
    · obtain ⟨front, suffix, split, continues⟩ := ih tail later
      exact ⟨first :: front, suffix, by rw [split, List.cons_append], continues⟩

/-- A linked list ends, so it meets no node twice. -/
theorem nodup : nodes.Nodup := by
  induction nodes generalizing before head with
  | nil => exact List.nodup_nil
  | cons node rest ih =>
    obtain ⟨_, _, tail⟩ := linked
    refine List.nodup_cons.mpr ⟨?_, ih tail⟩
    intro again
    -- A second visit would start the same continuation again, one node shorter.
    obtain ⟨front, suffix, split, continues⟩ := tail.suffix_of_mem again
    have same : rest = suffix := tail.nodes_unique continues
    have longer : rest.length = front.length + (suffix.length + 1) := by
      rw [split, List.length_append, List.length_cons]
    rw [same] at longer
    omega

/-- The listed nodes are exactly those met along `next`. -/
theorem mem_iff_onList : node ∈ nodes ↔ OnList next head node := by
  constructor
  · intro member
    induction nodes generalizing before head with
    | nil => cases member
    | cons first rest ih =>
      obtain ⟨rfl, _, tail⟩ := linked
      rcases List.mem_cons.mp member with rfl | later
      · exact .here node
      · exact .later (ih tail later)
  · intro met
    induction met generalizing before nodes with
    | here =>
      obtain ⟨rest, rfl, _⟩ := linked.cons_of_head
      exact List.mem_cons_self
    | later _ ih =>
      obtain ⟨rest, rfl, _, tail⟩ := linked.cons_of_head
      exact List.mem_cons_of_mem _ (ih tail)

/-- A `next` link between listed nodes is mirrored by a `prev` link. -/
theorem prev_of_next (member : node ∈ nodes) (link : next node = some other) :
    other ∈ nodes ∧ prev other = some node := by
  obtain ⟨front, rest, rfl, tail⟩ := linked.suffix_of_mem member
  rw [link] at tail
  obtain ⟨rest', rfl, back, _⟩ := tail.cons_of_head
  exact ⟨List.mem_append_right front (List.mem_cons_of_mem node List.mem_cons_self), back⟩

/-- The `prev` link of a listed node is the entry link or names the node before it. -/
theorem prev_cases (member : node ∈ nodes) :
    (head = some node ∧ prev node = before) ∨
      ∃ other ∈ nodes, next other = some node ∧ prev node = some other := by
  induction nodes generalizing before head with
  | nil => cases member
  | cons first rest ih =>
    obtain ⟨rfl, back, tail⟩ := linked
    rcases List.mem_cons.mp member with rfl | later
    · exact Or.inl ⟨rfl, back⟩
    · rcases ih tail later with ⟨link, back⟩ | ⟨other, inside, link, back⟩
      · exact Or.inr ⟨first, List.mem_cons_self, link, back⟩
      · exact Or.inr ⟨other, List.mem_cons_of_mem first inside, link, back⟩

end

/-- A listed node's links name its neighbours. -/
theorem links_of_split {front rest : List ι}
    (linked : Linked next prev before head (front ++ node :: rest)) :
    next node = rest.head? ∧ prev node = front.getLast?.or before := by
  induction front generalizing before head with
  | nil =>
    obtain ⟨_, back, tail⟩ := linked
    exact ⟨tail.head_eq, back⟩
  | cons first front ih =>
    obtain ⟨_, _, tail⟩ := linked
    obtain ⟨link, back⟩ := ih tail
    refine ⟨link, back.trans ?_⟩
    rw [List.getLast?_cons]
    cases front.getLast? with
    | none => rfl
    | some last => rfl

/-- A list that is entered from elsewhere. -/
theorem rebase (linked : Linked next prev before head nodes)
    (entry : ∀ first, head = some first → prev' first = before')
    (sameNext : ∀ other ∈ nodes, next' other = next other)
    (samePrev : ∀ other ∈ nodes, head ≠ some other → prev' other = prev other) :
    Linked next' prev' before' head nodes := by
  cases nodes with
  | nil => exact linked
  | cons first rest =>
    have distinct := List.nodup_cons.mp linked.nodup
    obtain ⟨rfl, _, tail⟩ := linked
    refine ⟨rfl, entry first rfl, ?_⟩
    rw [sameNext first List.mem_cons_self]
    refine tail.congr (fun other member => sameNext other (List.mem_cons_of_mem first member))
      fun other member => samePrev other (List.mem_cons_of_mem first member) fun same => ?_
    cases same
    exact distinct.1 member

/-- Pushing a node at the front of a list. -/
theorem push (linked : Linked next prev none head nodes)
    (link : next' node = head) (back : prev' node = none)
    (sameNext : ∀ other ∈ nodes, next' other = next other)
    (headBack : ∀ other, head = some other → prev' other = some node)
    (samePrev : ∀ other ∈ nodes, head ≠ some other → prev' other = prev other) :
    Linked next' prev' none (some node) (node :: nodes) := by
  refine ⟨rfl, back, ?_⟩
  rw [link]
  exact linked.rebase headBack sameNext samePrev

/-- Inserting a node behind a listed one. -/
theorem insertAfter {front rest : List ι} {after : ι}
    (linked : Linked next prev before head (front ++ after :: rest))
    (linkAfter : next' after = some node) (linkNode : next' node = next after)
    (backNode : prev' node = some after)
    (backNext : ∀ other, next after = some other → prev' other = some node)
    (sameNext : ∀ other ∈ front ++ after :: rest, other ≠ after → next' other = next other)
    (samePrev : ∀ other ∈ front ++ after :: rest, next after ≠ some other →
      prev' other = prev other) :
    Linked next' prev' before head (front ++ after :: node :: rest) := by
  have distinct := linked.nodup
  induction front generalizing before head with
  | nil =>
    obtain ⟨start, back, tail⟩ := linked
    have notSelf : next after ≠ some after := by
      intro loop
      rw [loop] at tail
      obtain ⟨rest', split, _⟩ := tail.cons_of_head
      exact (List.nodup_cons.mp distinct).1 (split ▸ List.mem_cons_self)
    refine ⟨start, (samePrev after List.mem_cons_self notSelf).trans back, linkAfter, backNode, ?_⟩
    rw [linkNode]
    refine tail.rebase backNext (fun other listed => ?_) fun other listed =>
      samePrev other (List.mem_cons_of_mem after listed)
    exact sameNext other (List.mem_cons_of_mem after listed) fun same =>
      (List.nodup_cons.mp distinct).1 (same ▸ listed)
  | cons first front ih =>
    obtain ⟨start, back, tail⟩ := linked
    have outside := (List.nodup_cons.mp distinct).1
    have notAfter : first ≠ after := fun same =>
      outside (same ▸ List.mem_append_right front List.mem_cons_self)
    have notNext : next after ≠ some first := by
      intro link
      exact outside (tail.prev_of_next
        (List.mem_append_right front List.mem_cons_self) link).1
    refine ⟨start, (samePrev first List.mem_cons_self notNext).trans back, ?_⟩
    rw [sameNext first List.mem_cons_self notAfter]
    exact ih tail (fun other listed => sameNext other (List.mem_cons_of_mem first listed))
      (fun other listed => samePrev other (List.mem_cons_of_mem first listed))
      (List.nodup_cons.mp distinct).2

variable [DecidableEq ι]

/-- Unlinking a listed node: its neighbours are joined, the head moves on when
the node was the head, and the node's own links no longer matter. -/
theorem unlink (linked : Linked next prev before head nodes) (member : node ∈ nodes)
    (joinNext : ∀ other ∈ nodes, other ≠ node →
      next' other = if prev node = some other then next node else next other)
    (joinPrev : ∀ other ∈ nodes, other ≠ node →
      prev' other = if next node = some other then prev node else prev other)
    (outside : ∀ other, before = some other → other ∉ nodes) :
    Linked next' prev' before (if head = some node then next node else head)
      (nodes.erase node) := by
  induction nodes generalizing before head with
  | nil => cases member
  | cons first rest ih =>
    have distinct := List.nodup_cons.mp linked.nodup
    obtain ⟨rfl, back, tail⟩ := linked
    by_cases same : first = node
    · subst same
      rw [if_pos rfl, List.erase_cons_head]
      have apart : ∀ other ∈ rest, other ≠ first := fun other listed same =>
        distinct.1 (same ▸ listed)
      refine tail.rebase (fun second link => ?_) (fun other listed => ?_)
        fun other listed notNext => ?_
      · have listed := tail.head_mem link
        rw [joinPrev second (List.mem_cons_of_mem first listed) (apart second listed), if_pos link,
          back]
      · rw [joinNext other (List.mem_cons_of_mem first listed) (apart other listed), if_neg]
        intro link
        exact outside other (back.symm.trans link) (List.mem_cons_of_mem first listed)
      · rw [joinPrev other (List.mem_cons_of_mem first listed) (apart other listed), if_neg notNext]
    · have inside : node ∈ rest := (List.mem_cons.mp member).resolve_left (Ne.symm same)
      have notHead : (some first : Option ι) ≠ some node := fun eq => same (Option.some.inj eq)
      rw [if_neg notHead, List.erase_cons_tail (by simpa using same)]
      refine ⟨rfl, ?_, ?_⟩
      · have keep : next node ≠ some first := by
          intro link
          obtain ⟨reached, _⟩ := tail.prev_of_next inside link
          exact distinct.1 reached
        rw [joinPrev first List.mem_cons_self same, if_neg keep, back]
      · have step := ih tail inside
          (fun other listed => joinNext other (List.mem_cons_of_mem first listed))
          (fun other listed => joinPrev other (List.mem_cons_of_mem first listed))
          (fun other link => by cases link; exact distinct.1)
        have link : next' first = if next first = some node then next node else next first := by
          rw [joinNext first List.mem_cons_self same]
          by_cases follows : next first = some node
          · rw [if_pos follows]
            have mirrored : prev node = some first := by
              rw [follows] at tail
              obtain ⟨_, _, back, _⟩ := tail.cons_of_head
              exact back
            rw [if_pos mirrored]
          · rw [if_neg follows, if_neg]
            intro back
            rcases tail.prev_cases inside with ⟨link, _⟩ | ⟨other, listed, link, mirrored⟩
            · exact follows link
            · cases mirrored.symm.trans back
              exact distinct.1 listed
        rw [link]
        exact step

end Linked

/-- A family of lists over the same links, without common nodes. -/
structure Family {κ : Type*} (next prev : ι → Option ι) (heads : κ → Option ι)
    (lists : κ → List ι) : Prop where
  linked : ∀ k, Linked next prev none (heads k) (lists k)
  apart : ∀ {j k node}, node ∈ lists j → node ∈ lists k → j = k

namespace Family

variable {κ : Type*} {heads heads' : κ → Option ι} {lists : κ → List ι} {j k : κ}

section

variable (family : Family next prev heads lists)
include family

theorem head_mem (first : heads k = some node) : node ∈ lists k :=
  (family.linked k).head_mem first

/-- A listed node without predecessor is the head of its list and of no other. -/
theorem head_iff (member : node ∈ lists k) : heads j = some node ↔ j = k ∧ prev node = none := by
  constructor
  · intro first
    cases family.apart (family.head_mem first) member
    refine ⟨rfl, ?_⟩
    have linked := family.linked j
    rw [first] at linked
    obtain ⟨_, _, back, _⟩ := linked.cons_of_head
    exact back
  · rintro ⟨rfl, back⟩
    rcases (family.linked j).prev_cases member with ⟨first, _⟩ | ⟨_, _, _, mirrored⟩
    · exact first
    · cases back.symm.trans mirrored

/-- The successor is on the same list. -/
theorem next_mem (member : node ∈ lists k) (link : next node = some other) :
    other ∈ lists k ∧ other ≠ node := by
  refine ⟨((family.linked k).prev_of_next member link).1, ?_⟩
  rintro rfl
  obtain ⟨front, rest, split, tail⟩ := (family.linked k).suffix_of_mem member
  rw [link] at tail
  obtain ⟨rest', again, _⟩ := tail.cons_of_head
  have distinct := (family.linked k).nodup
  rw [split, again] at distinct
  exact (List.nodup_cons.mp (List.nodup_append.mp distinct).2.1).1 List.mem_cons_self

theorem prev_mem (member : node ∈ lists k) (link : prev node = some other) :
    other ∈ lists k ∧ other ≠ node := by
  rcases (family.linked k).prev_cases member with ⟨_, back⟩ | ⟨before, listed, forward, back⟩
  · cases back.symm.trans link
  · cases back.symm.trans link
    exact ⟨listed, (family.next_mem listed forward).2.symm⟩

/-- Only the links of the listed nodes matter. -/
theorem congr (sameHeads : heads' = heads)
    (sameNext : ∀ k, ∀ node ∈ lists k, next' node = next node)
    (samePrev : ∀ k, ∀ node ∈ lists k, prev' node = prev node) :
    Family next' prev' heads' lists := by
  subst sameHeads
  exact ⟨fun k => (family.linked k).congr (sameNext k) (samePrev k), family.apart⟩

end

variable [DecidableEq κ]

theorem mem_pushed : other ∈ update lists k (node :: lists k) j ↔
    other ∈ lists j ∨ j = k ∧ other = node := by
  by_cases same : j = k
  · subst same
    rw [update_self, List.mem_cons, or_comm, eq_self, true_and]
  · rw [update_of_ne same, or_iff_left fun new => same new.1]

variable [DecidableEq ι]

theorem mem_of_mem_erased (listed : other ∈ update lists k ((lists k).erase node) j) :
    other ∈ lists j := by
  by_cases same : j = k
  · subst same
    rw [update_self] at listed
    exact List.mem_of_mem_erase listed
  · rwa [update_of_ne same] at listed

variable (family : Family next prev heads lists)
include family

/-- Pushing an unlisted node at the front of one list. -/
theorem push (k : κ) (fresh : ∀ j, node ∉ lists j)
    (nextOf : ∀ other, next' other = if other = node then heads k else next other)
    (prevOf : ∀ other, prev' other =
      if other = node then none else if heads k = some other then some node else prev other) :
    Family next' prev' (update heads k (some node))
      (update lists k (node :: lists k)) := by
  have notNode : ∀ j, ∀ other ∈ lists j, other ≠ node := fun j other listed same =>
    fresh j (same ▸ listed)
  refine ⟨fun j => ?_, fun {i j other} left right => ?_⟩
  · by_cases same : j = k
    · subst same
      rw [update_self, update_self]
      refine (family.linked j).push ?_ ?_ ?_ ?_ ?_
      · rw [nextOf, if_pos rfl]
      · rw [prevOf, if_pos rfl]
      · intro other listed
        rw [nextOf, if_neg (notNode j other listed)]
      · intro other first
        rw [prevOf, if_neg (notNode j other (family.head_mem first)), if_pos first]
      · intro other listed notHead
        rw [prevOf, if_neg (notNode j other listed), if_neg notHead]
    · rw [update_of_ne same, update_of_ne same]
      refine (family.linked j).congr ?_ ?_
      · intro other listed
        rw [nextOf, if_neg (notNode j other listed)]
      · intro other listed
        have notHead : heads k ≠ some other := fun first =>
          same (family.apart listed (family.head_mem first))
        rw [prevOf, if_neg (notNode j other listed), if_neg notHead]
  · rcases mem_pushed.mp left with leftOld | ⟨rfl, rfl⟩
    · rcases mem_pushed.mp right with rightOld | ⟨rfl, rfl⟩
      · exact family.apart leftOld rightOld
      · exact (fresh i leftOld).elim
    · rcases mem_pushed.mp right with rightOld | ⟨rfl, _⟩
      · exact (fresh j rightOld).elim
      · rfl

/-- Unlinking a node from the list it is on. -/
theorem unlink (member : node ∈ lists k)
    (nextOf : ∀ other, other ≠ node →
      next' other = if prev node = some other then next node else next other)
    (prevOf : ∀ other, other ≠ node →
      prev' other = if next node = some other then prev node else prev other) :
    Family next' prev'
      (update heads k (if heads k = some node then next node else heads k))
      (update lists k ((lists k).erase node)) := by
  refine ⟨fun j => ?_, fun left right =>
    family.apart (mem_of_mem_erased left) (mem_of_mem_erased right)⟩
  by_cases same : j = k
  · subst same
    rw [update_self, update_self]
    exact (family.linked j).unlink member (fun other _ differs => nextOf other differs)
      (fun other _ differs => prevOf other differs) (fun other absent => by cases absent)
  · rw [update_of_ne same, update_of_ne same]
    have notNode : ∀ other ∈ lists j, other ≠ node := fun other listed eq =>
      same (family.apart listed (eq ▸ member))
    refine (family.linked j).congr ?_ ?_
    · intro other listed
      have notPrev : prev node ≠ some other := fun link =>
        same (family.apart listed (family.prev_mem member link).1)
      rw [nextOf other (notNode other listed), if_neg notPrev]
    · intro other listed
      have notNext : next node ≠ some other := fun link =>
        same (family.apart listed (family.next_mem member link).1)
      rw [prevOf other (notNode other listed), if_neg notNext]

/-- An unlinked node is on no list. -/
theorem not_mem_unlinked (member : node ∈ lists k) (j : κ) :
    node ∉ update lists k ((lists k).erase node) j := by
  by_cases same : j = k
  · subst same
    rw [update_self]
    exact fun listed => ((family.linked j).nodup.mem_erase_iff.mp listed).1 rfl
  · rw [update_of_ne same]
    exact fun listed => same (family.apart listed member)

end Family

end IntrusiveList
