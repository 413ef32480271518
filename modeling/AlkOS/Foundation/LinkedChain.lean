import Mathlib

/-!
# Chains along a successor map

A chain starts at an element, follows a successor map and ends at an element
whose successor is an end mark. A start determines its chain, so a chain repeats
nothing, and it depends on the map at its own elements only.
-/

/-- The elements up to the one whose successor is an end mark. -/
inductive LinkedChain {α : Type*} (next : α → α) (stop : α → Prop) : α → List α → Prop where
  | last {a : α} : ¬ stop a → stop (next a) → LinkedChain next stop a [a]
  | cons {a : α} {rest : List α} : ¬ stop a → LinkedChain next stop (next a) rest →
      LinkedChain next stop a (a :: rest)

namespace LinkedChain

variable {α : Type*} {next next' : α → α} {stop : α → Prop} {a b : α} {l l' m : List α}

section

variable (chain : LinkedChain next stop a l)
include chain

theorem exists_cons : ∃ rest, l = a :: rest := by
  cases chain with
  | last _ _ => exact ⟨[], rfl⟩
  | cons _ _ => exact ⟨_, rfl⟩

theorem start_mem : a ∈ l := by
  obtain ⟨rest, rfl⟩ := chain.exists_cons
  exact List.mem_cons_self

theorem not_stop_start : ¬ stop a := by
  cases chain with
  | last going _ => exact going
  | cons going _ => exact going

theorem not_stop (member : b ∈ l) : ¬ stop b := by
  induction chain with
  | last going _ =>
    rw [List.mem_singleton.mp member]
    exact going
  | cons going _ ih =>
    rcases List.mem_cons.mp member with rfl | later
    · exact going
    · exact ih later

theorem unique (other : LinkedChain next stop a l') : l = l' := by
  induction chain generalizing l' with
  | last _ ends =>
    cases other with
    | last _ _ => rfl
    | cons _ rest => exact absurd ends rest.not_stop_start
  | cons _ rest ih =>
    cases other with
    | last _ ends => exact absurd ends rest.not_stop_start
    | cons _ rest' => rw [ih rest']

/-- Every element starts the rest of the chain. -/
theorem suffix_of_mem (member : b ∈ l) :
    ∃ before after, l = before ++ after ∧ LinkedChain next stop b after := by
  induction chain with
  | last going ends =>
    rw [List.mem_singleton.mp member]
    exact ⟨[], _, rfl, .last going ends⟩
  | cons going rest ih =>
    rcases List.mem_cons.mp member with rfl | later
    · exact ⟨[], _, rfl, .cons going rest⟩
    · obtain ⟨before, after, split, tail⟩ := ih later
      exact ⟨_ :: before, after, by rw [split, List.cons_append], tail⟩

theorem nodup : l.Nodup := by
  induction chain with
  | last _ _ => exact List.nodup_singleton _
  | cons going rest ih =>
    refine List.nodup_cons.mpr ⟨fun member => ?_, ih⟩
    obtain ⟨before, after, split, tail⟩ := rest.suffix_of_mem member
    have same := tail.unique (.cons going rest)
    have size := congrArg List.length split
    rw [same, List.length_append, List.length_cons] at size
    omega

/-- A chain depends on the successors of its own elements only. -/
theorem congr (same : ∀ x ∈ l, next' x = next x) : LinkedChain next' stop a l := by
  induction chain with
  | last going ends =>
    refine .last going ?_
    rw [same _ List.mem_cons_self]
    exact ends
  | cons going _ ih =>
    refine .cons going ?_
    rw [same _ List.mem_cons_self]
    exact ih fun x member => same x (List.mem_cons_of_mem _ member)

end

/-- The rest of a chain may be replaced behind elements that keep their successors. -/
theorem replace_tail (chain : LinkedChain next stop a (l ++ b :: m))
    (same : ∀ x ∈ l, next' x = next x) (tail : LinkedChain next' stop b l') :
    LinkedChain next' stop a (l ++ l') := by
  induction l generalizing a with
  | nil =>
    obtain ⟨rest, split⟩ := chain.exists_cons
    rw [List.nil_append, List.cons.injEq] at split
    rw [← split.1]
    exact tail
  | cons x l ih =>
    have more : l ++ b :: m ≠ [] := by simp
    rw [List.cons_append] at chain ⊢
    generalize rest : l ++ b :: m = others at chain more
    cases chain with
    | last going ends => exact absurd rfl more
    | cons going onward =>
      subst rest
      refine .cons going ?_
      rw [same x List.mem_cons_self]
      exact ih onward fun y member => same y (List.mem_cons_of_mem _ member)

/-- A later element starts the rest of the chain. -/
theorem drop (chain : LinkedChain next stop a (l ++ b :: m)) :
    LinkedChain next stop b (b :: m) := by
  induction l generalizing a with
  | nil =>
    obtain ⟨rest, split⟩ := chain.exists_cons
    rw [List.nil_append, List.cons.injEq] at split
    rw [← split.1] at chain
    exact chain
  | cons x l ih =>
    rw [List.cons_append] at chain
    generalize rest : l ++ b :: m = others at chain
    cases chain with
    | last going ends => simp at rest
    | cons going onward =>
      subst rest
      exact ih onward

/-- An element is followed by its successor or ends the chain. -/
theorem next_mem_or_stop (chain : LinkedChain next stop a l) (member : b ∈ l) :
    next b ∈ l ∨ stop (next b) := by
  induction chain with
  | last _ ends =>
    rw [List.mem_singleton.mp member]
    exact .inr ends
  | cons _ rest ih =>
    rcases List.mem_cons.mp member with rfl | later
    · exact .inl (List.mem_cons_of_mem _ rest.start_mem)
    · exact (ih later).imp_left fun inside => List.mem_cons_of_mem _ inside

end LinkedChain
