import Mathlib

/-!
# Occurrences of a value

How often a function takes a value on a finite set, and how that number changes
when the function is changed in one place.
-/

namespace Occurrences

open Function

variable {ι κ : Type*} [DecidableEq ι] [DecidableEq κ] {S T : Finset ι} {f g : ι → κ} {i : ι}
  {x k : κ}

/-- The number of places of a finite set where a function takes a value. -/
def count (S : Finset ι) (f : ι → κ) (k : κ) : ℕ := (S.filter fun i => f i = k).card

omit [DecidableEq ι] in
theorem count_congr (same : ∀ i ∈ S, f i = g i) : count S f k = count S g k := by
  unfold count
  rw [Finset.filter_congr fun i member => by rw [same i member]]

omit [DecidableEq ι] in
theorem count_pos_iff : 0 < count S f k ↔ ∃ i ∈ S, f i = k := by
  simp [count, Finset.Nonempty]

omit [DecidableEq ι] in
/-- Places where the value is not taken do not count. -/
theorem count_subset (part : S ⊆ T) (outside : ∀ i ∈ T, i ∉ S → f i ≠ k) :
    count T f k = count S f k := by
  unfold count
  congr 1
  ext i
  simp only [Finset.mem_filter]
  exact ⟨fun ⟨member, taken⟩ => ⟨by_contra fun missing => outside i member missing taken, taken⟩,
    fun ⟨member, taken⟩ => ⟨part member, taken⟩⟩

theorem count_eq_erase (member : i ∈ S) :
    count S f k = count (S.erase i) f k + if f i = k then 1 else 0 := by
  unfold count
  conv_lhs => rw [← Finset.insert_erase member, Finset.filter_insert]
  split
  · rw [Finset.card_insert_of_notMem (by simp)]
  · rfl

/-- A change in one place takes the old value away and adds the new one. -/
theorem count_update (member : i ∈ S) :
    count S (update f i x) k + (if f i = k then 1 else 0) =
      count S f k + if x = k then 1 else 0 := by
  rw [count_eq_erase member, count_eq_erase (f := f) member, update_self,
    count_congr (f := update f i x) (g := f)]
  · omega
  · intro j other
    exact update_of_ne (Finset.ne_of_mem_erase other) _ _

end Occurrences
