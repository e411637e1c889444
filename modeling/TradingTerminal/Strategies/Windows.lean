import TradingTerminal.Strategies.Indicators
import Mathlib.Algebra.Order.BigOperators.Group.List
import Mathlib.Tactic.Linarith
import Mathlib.Tactic.Positivity

/-!
# Windows of a history

A window that is pushed to keeps the end of what was pushed (`foldl_pushWindow`). The bounds of the
indicators follow from those of the prices in the window.
-/

namespace TradingTerminal

/-! ## The end of a history -/

theorem length_lastN (n : Nat) (xs : List ℚ) : (lastN n xs).length = min n xs.length := by
  rw [lastN, List.length_drop]
  omega

/-- A window inside a longer one. -/
theorem lastN_lastN {m n : Nat} (h : m ≤ n) (xs : List ℚ) : lastN m (lastN n xs) = lastN m xs := by
  unfold lastN
  rw [List.drop_drop, List.length_drop]
  congr 1
  omega

theorem lastN_concat {n : Nat} (h : n ≠ 0) (xs : List ℚ) (x : ℚ) :
    lastN n (xs ++ [x]) = lastN (n - 1) xs ++ [x] := by
  unfold lastN
  rw [List.length_append, List.length_singleton, List.drop_append_of_le_length (by omega)]
  congr 2
  omega

/-- What a push leaves of a window is the window of what was pushed. -/
theorem pushWindow_lastN (n : Nat) (xs : List ℚ) (x : ℚ) :
    pushWindow n (lastN n xs) x = lastN n (xs ++ [x]) := by
  have hpush : pushWindow n (lastN n xs) x = lastN n (lastN n xs ++ [x]) := rfl
  rw [hpush]
  cases n with
  | zero => simp [lastN]
  | succ n =>
    rw [lastN_concat (by omega), lastN_concat (by omega), Nat.add_sub_cancel, lastN_lastN (by omega)]

theorem foldl_pushWindow (n : Nat) (xs : List ℚ) : xs.foldl (pushWindow n) [] = lastN n xs := by
  induction xs using List.reverseRecOn with
  | nil => simp [lastN]
  | append_singleton xs x ih => rw [List.foldl_concat, ih, pushWindow_lastN]

theorem getLastD_pushWindow {n : Nat} (h : 0 < n) (xs : List ℚ) (x d : ℚ) :
    (pushWindow n xs x).getLastD d = x := by
  have hdrop : (xs ++ [x]).length - n ≤ xs.length := by
    rw [List.length_append, List.length_singleton]
    omega
  rw [pushWindow, List.drop_append_of_le_length hdrop, List.getLastD_concat]

theorem mem_of_mem_lastN {n : Nat} {xs : List ℚ} {x : ℚ} (h : x ∈ lastN n xs) : x ∈ xs :=
  List.mem_of_mem_drop h

/-! ## Bounds of the indicators -/

theorem gainsAndLosses_nonneg (prices : List ℚ) :
    0 ≤ (gainsAndLosses prices).1 ∧ 0 ≤ (gainsAndLosses prices).2 := by
  unfold gainsAndLosses
  generalize List.zipWith (· - ·) prices.tail prices = changes
  suffices h : ∀ gain loss : ℚ, 0 ≤ gain → 0 ≤ loss →
      0 ≤ (changes.foldl (fun (acc : ℚ × ℚ) change =>
        if change > 0 then (acc.1 + change, acc.2) else (acc.1, acc.2 - change)) (gain, loss)).1 ∧
      0 ≤ (changes.foldl (fun (acc : ℚ × ℚ) change =>
        if change > 0 then (acc.1 + change, acc.2) else (acc.1, acc.2 - change)) (gain, loss)).2 from
    h 0 0 (le_refl 0) (le_refl 0)
  induction changes with
  | nil => exact fun gain loss hgain hloss => ⟨hgain, hloss⟩
  | cons change changes ih =>
    intro gain loss hgain hloss
    rw [List.foldl_cons]
    by_cases hchange : change > 0
    · rw [if_pos hchange]
      exact ih _ _ (add_nonneg hgain hchange.le) hloss
    · rw [if_neg hchange]
      exact ih _ _ hgain (sub_nonneg.2 ((not_lt.1 hchange).trans hloss))

/-- The relative strength is a percentage. -/
theorem rsiOf_mem (prices : List ℚ) : 0 ≤ rsiOf prices ∧ rsiOf prices ≤ 100 := by
  obtain ⟨hgain, hloss⟩ := gainsAndLosses_nonneg (lastN 15 prices)
  unfold rsiOf
  generalize gainsAndLosses (lastN 15 prices) = sums at hgain hloss
  dsimp only
  split
  · exact ⟨by norm_num, le_refl _⟩
  · have hrs : 0 ≤ sums.1 / 14 / (sums.2 / 14) := by positivity
    have hpart : 0 ≤ 100 / (1 + sums.1 / 14 / (sums.2 / 14)) := by positivity
    have hwhole : 100 / (1 + sums.1 / 14 / (sums.2 / 14)) ≤ 100 :=
      div_le_self (by norm_num) (by linarith)
    exact ⟨by linarith, by linarith⟩

theorem meanOf_pos {prices : List ℚ} (hne : prices ≠ []) (h : ∀ x ∈ prices, 0 < x) :
    0 < meanOf prices := by
  have hlength : (0 : ℚ) < prices.length := by exact_mod_cast List.length_pos_iff.2 hne
  exact div_pos (List.sum_pos prices h hne) hlength

end TradingTerminal
