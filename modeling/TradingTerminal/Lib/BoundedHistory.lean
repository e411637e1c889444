import Mathlib.Data.List.DropRight

/-!
# Bounded histories

A vector that is pushed to at the end and loses its first element when it grows beyond a bound holds
the end of everything that was pushed (`pushBounded_rtake`); a window at its end is one of the whole
history (`drop_rtake`).
-/

namespace TradingTerminal.Lib

variable {α : Type*}

/-- Push at the end; beyond `n` elements the first one goes. -/
def pushBounded (n : Nat) (xs : List α) (x : α) : List α :=
  let xs := xs ++ [x]
  if xs.length > n then xs.drop 1 else xs

theorem length_rtake (xs : List α) (n : Nat) : (xs.rtake n).length = min n xs.length := by
  rw [List.rtake, List.length_drop]
  omega

theorem pushBounded_rtake {n : Nat} (hn : n ≠ 0) (xs : List α) (x : α) :
    pushBounded n (xs.rtake n) x = (xs ++ [x]).rtake n := by
  obtain ⟨n, rfl⟩ := Nat.exists_eq_succ_of_ne_zero hn
  rw [List.rtake_concat_succ, pushBounded]
  rw [List.length_append, length_rtake, List.length_singleton]
  unfold List.rtake
  by_cases hfull : n + 1 ≤ xs.length
  · rw [if_pos (by omega), List.drop_append_of_le_length (by rw [List.length_drop]; omega),
      List.drop_drop]
    congr 2
    omega
  · rw [if_neg (by omega)]
    congr 2
    omega

/-- What is left of the last `n` behind a start is the last elements of all. -/
theorem drop_rtake (xs : List α) (n start : Nat) :
    (xs.rtake n).drop start = xs.rtake (min n xs.length - start) := by
  unfold List.rtake
  rw [List.drop_drop]
  by_cases h : start ≤ min n xs.length
  · congr 1
    omega
  · rw [List.drop_eq_nil_of_le (by omega), List.drop_eq_nil_of_le (by omega)]

end TradingTerminal.Lib
