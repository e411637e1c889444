import Mathlib.Algebra.BigOperators.Ring.List
import Mathlib.Algebra.Order.BigOperators.Group.List
import Mathlib.Algebra.Order.Field.Basic

/-!
# Weighted means

The mean of values with positive weights is among the values: some value is no more than the mean
and some value no less.
-/

namespace TradingTerminal.Lib

variable {ι K : Type*} [Field K] [LinearOrder K] [IsStrictOrderedRing K] (value weight : ι → K)

/-- The sum of the values by their weights, over the sum of the weights. -/
def weightedMean (xs : List ι) : K :=
  (xs.map fun x => value x * weight x).sum / (xs.map weight).sum

variable {value weight} {xs : List ι}

theorem sum_weight_pos (hweight : ∀ x ∈ xs, 0 < weight x) (hne : xs ≠ []) :
    0 < (xs.map weight).sum := by
  apply List.sum_pos
  · intro w hw
    obtain ⟨x, hx, rfl⟩ := List.mem_map.1 hw
    exact hweight x hx
  · simpa using hne

/-- The mean is the value that all elements would have to have for the same sum. -/
theorem sum_mean_mul (hweight : ∀ x ∈ xs, 0 < weight x) (hne : xs ≠ []) :
    (xs.map fun x => weightedMean value weight xs * weight x).sum =
      (xs.map fun x => value x * weight x).sum := by
  rw [List.sum_map_mul_left, weightedMean, div_mul_cancel₀ _ (sum_weight_pos hweight hne).ne']

theorem exists_value_le_mean (hweight : ∀ x ∈ xs, 0 < weight x) (hne : xs ≠ []) :
    ∃ x ∈ xs, value x ≤ weightedMean value weight xs := by
  obtain ⟨x, hx, hle⟩ := List.exists_le_of_sum_le hne (fun x => value x * weight x)
    (fun x => weightedMean value weight xs * weight x) (sum_mean_mul hweight hne).ge
  exact ⟨x, hx, le_of_mul_le_mul_right hle (hweight x hx)⟩

theorem exists_mean_le_value (hweight : ∀ x ∈ xs, 0 < weight x) (hne : xs ≠ []) :
    ∃ x ∈ xs, weightedMean value weight xs ≤ value x := by
  obtain ⟨x, hx, hle⟩ := List.exists_le_of_sum_le hne
    (fun x => weightedMean value weight xs * weight x) (fun x => value x * weight x)
    (sum_mean_mul hweight hne).le
  exact ⟨x, hx, le_of_mul_le_mul_right hle (hweight x hx)⟩

theorem mean_pos (hweight : ∀ x ∈ xs, 0 < weight x) (hvalue : ∀ x ∈ xs, 0 < value x)
    (hne : xs ≠ []) : 0 < weightedMean value weight xs := by
  obtain ⟨x, hx, hle⟩ : ∃ x ∈ xs, value x ≤ weightedMean value weight xs :=
    exists_value_le_mean hweight hne
  exact (hvalue x hx).trans_le hle

end TradingTerminal.Lib
