import Mathlib

/-!
# Nodes reachable from a root

How the nodes reachable from a root change when edges are added or moved, and
why a graph in which every reachable node has one parent has no cycle.
-/

namespace Reachability

open Relation

variable {α : Type*} {edge edge' : α → α → Prop} {root a b c m p q : α}

/-- Reachability carries over when every edge between reachable nodes does. -/
theorem transfer (path : ReflTransGen edge root c)
    (carry : ∀ a b, ReflTransGen edge root a → ReflTransGen edge' root a → edge a b →
      ReflTransGen edge' root b) : ReflTransGen edge' root c := by
  induction path with
  | refl => exact .refl
  | tail path step ih => exact carry _ _ path ih step

/-- Graphs with the same edges at reachable nodes reach the same nodes. -/
theorem congr (same : ∀ a, ReflTransGen edge root a → ∀ b, edge' a b ↔ edge a b) :
    ReflTransGen edge' root c ↔ ReflTransGen edge root c := by
  constructor
  · intro path
    exact transfer path fun a b _ old step => old.tail ((same a old b).mp step)
  · intro path
    exact transfer path fun a b old new step => new.tail ((same a old b).mpr step)

/-- A new edge to a node without successors adds that node. -/
theorem add_leaf (reachable : ReflTransGen edge root p)
    (same : ∀ a, ReflTransGen edge root a → ∀ b, edge' a b ↔ edge a b ∨ a = p ∧ b = m)
    (leaf : ∀ b, ¬ edge' m b) :
    ReflTransGen edge' root c ↔ ReflTransGen edge root c ∨ c = m := by
  have forth : ∀ c, ReflTransGen edge root c → ReflTransGen edge' root c := fun c path =>
    transfer path fun a b old new step => new.tail ((same a old b).mpr (.inl step))
  constructor
  · intro path
    induction path with
    | refl => exact .inl .refl
    | tail path step ih =>
      rcases ih with old | rfl
      · rcases (same _ old _).mp step with edge | ⟨-, rfl⟩
        · exact .inl (old.tail edge)
        · exact .inr rfl
      · exact absurd step (leaf _)
  · intro known
    rcases known with old | rfl
    · exact forth c old
    · exact (forth p reachable).tail ((same p reachable c).mpr (.inr ⟨rfl, rfl⟩))

/-- Removing the only edge to a node without successors removes that node. -/
theorem remove_leaf (notRoot : m ≠ root)
    (same : ∀ a, ReflTransGen edge root a → ∀ b, edge' a b ↔ edge a b ∧ b ≠ m)
    (leaf : ∀ b, ¬ edge m b) :
    ReflTransGen edge' root c ↔ ReflTransGen edge root c ∧ c ≠ m := by
  constructor
  · intro path
    induction path with
    | refl => exact ⟨.refl, notRoot.symm⟩
    | tail path step ih =>
      obtain ⟨edge, other⟩ := (same _ ih.1 _).mp step
      exact ⟨ih.1.tail edge, other⟩
  · intro ⟨path, other⟩
    induction path with
    | refl => exact .refl
    | @tail b c path step ih =>
      have before : b ≠ m := fun equal => leaf c (equal ▸ step)
      exact (ih before).tail ((same b path c).mpr ⟨step, other⟩)

/-- Moving an edge to a parent that does not lie under its target keeps every node reachable. -/
theorem move (reachable : ReflTransGen edge root p) (old : edge p m)
    (target : ReflTransGen edge root q) (outside : ¬ ReflTransGen edge m q) (new : edge' q m)
    (kept : ∀ a, ReflTransGen edge root a → ∀ b, edge a b → b ≠ m → edge' a b)
    (back : ∀ a, ReflTransGen edge root a → ∀ b, edge' a b → edge a b ∨ b = m) :
    ReflTransGen edge' root c ↔ ReflTransGen edge root c := by
  have stays : ∀ x, ReflTransGen edge root x → ¬ ReflTransGen edge m x →
      ReflTransGen edge' root x := by
    intro x path
    induction path with
    | refl => exact fun _ => .refl
    | @tail y x path step ih =>
      intro away
      have before : ReflTransGen edge' root y := ih fun under => away (under.tail step)
      exact before.tail (kept y path x step fun equal => away (equal ▸ .refl))
  constructor
  · intro path
    refine transfer path fun a b _ known step => ?_
    rcases back a known b step with edge | rfl
    · exact known.tail edge
    · exact reachable.tail old
  · intro path
    refine transfer path fun a b known now step => ?_
    by_cases equal : b = m
    · rw [equal]
      exact (stays q target outside).tail new
    · exact now.tail (kept a known b step equal)

/-- With one parent for every reachable node and none for the root, there are no cycles. -/
theorem acyclic
    (single : ∀ a b c, ReflTransGen edge root a → ReflTransGen edge root b → edge a c →
      edge b c → a = b)
    (top : ∀ a, ReflTransGen edge root a → ¬ edge a root) (path : ReflTransGen edge root c) :
    ¬ TransGen edge c c := by
  induction path with
  | refl =>
    intro cycle
    obtain ⟨x, before, step⟩ := TransGen.tail'_iff.mp cycle
    exact top x before step
  | @tail b c path step ih =>
    intro cycle
    obtain ⟨x, before, last⟩ := TransGen.tail'_iff.mp cycle
    have same : x = b := single x b c ((path.tail step).trans before) path last step
    exact ih (TransGen.head' step (same ▸ before))

end Reachability
