import TradingTerminal.Lib.BoundedHistory

/-!
# Series over consecutive elements

`consecutive f xs` is `f` on every element of `xs` and the next one. It grows by one value with
every element after the first (`consecutive_concat`), so a program that remembers the latest element
keeps it up to date; and the last values are those of a window one element longer
(`rtake_consecutive`).
-/

namespace TradingTerminal.Lib

variable {α β : Type*} (f : α → α → β)

def consecutive (xs : List α) : List β := List.zipWith f xs xs.tail

@[simp] theorem length_consecutive (xs : List α) :
    (consecutive f xs).length = xs.length - 1 := by
  rw [consecutive, List.length_zipWith, List.length_tail]
  omega

theorem consecutive_cons_cons (x y : α) (xs : List α) :
    consecutive f (x :: y :: xs) = f x y :: consecutive f (y :: xs) := rfl

theorem consecutive_concat {xs : List α} (hne : xs ≠ []) (x : α) :
    consecutive f (xs ++ [x]) = consecutive f xs ++ [f (xs.getLast hne) x] := by
  induction xs with
  | nil => exact absurd rfl hne
  | cons y ys ih =>
    cases ys with
    | nil => rfl
    | cons z zs =>
      have htail := ih (List.cons_ne_nil z zs)
      rw [List.cons_append] at htail
      rw [List.cons_append, List.cons_append, consecutive_cons_cons, consecutive_cons_cons, htail,
        List.getLast_cons (List.cons_ne_nil z zs), List.cons_append]

theorem drop_consecutive (xs : List α) (n : Nat) :
    (consecutive f xs).drop n = consecutive f (xs.drop n) := by
  rw [consecutive, List.drop_zipWith, List.drop_tail, consecutive, List.tail_drop]

/-- The last `n` values come from the last `n + 1` elements. -/
theorem rtake_consecutive (xs : List α) (n : Nat) :
    (consecutive f xs).rtake n = consecutive f (xs.rtake (n + 1)) := by
  rw [List.rtake, drop_consecutive, length_consecutive, List.rtake]
  congr 2
  omega

end TradingTerminal.Lib
