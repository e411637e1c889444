import Mathlib.Data.List.Basic

/-!
# Removing one element by its index

How `List.eraseIdx` looks through a filter: the case where the filter keeps at most one element is
that of a key with at most one entry.
-/

namespace TradingTerminal.Lib

variable {α : Type*} {p : α → Bool} {xs : List α} {k : Nat} {x : α}

theorem eraseIdx_split (hk : xs[k]? = some x) :
    xs = xs.take k ++ x :: xs.drop (k + 1) ∧ xs.eraseIdx k = xs.take k ++ xs.drop (k + 1) := by
  obtain ⟨hlt, rfl⟩ := List.getElem?_eq_some_iff.1 hk
  rw [← List.drop_eq_getElem_cons hlt, List.take_append_drop, List.eraseIdx_eq_take_drop_succ]
  exact ⟨rfl, rfl⟩

/-- An element that the filter drops may as well be removed. -/
theorem filter_eraseIdx_of_neg (hk : xs[k]? = some x) (hp : p x = false) :
    (xs.eraseIdx k).filter p = xs.filter p := by
  obtain ⟨hxs, herase⟩ := eraseIdx_split hk
  rw [herase, List.filter_append]
  conv_rhs => rw [hxs, List.filter_append, List.filter_cons_of_neg (by simp [hp])]

/-- If the filter keeps one element at most, removing a kept one leaves nothing. -/
theorem filter_eraseIdx_of_pos (hk : xs[k]? = some x) (hp : p x = true)
    (hlen : (xs.filter p).length ≤ 1) :
    xs.filter p = [x] ∧ (xs.eraseIdx k).filter p = [] := by
  obtain ⟨hxs, herase⟩ := eraseIdx_split hk
  have hfilter : xs.filter p = (xs.take k).filter p ++ x :: (xs.drop (k + 1)).filter p := by
    conv_lhs => rw [hxs, List.filter_append, List.filter_cons_of_pos hp]
  rw [hfilter, List.length_append, List.length_cons] at hlen
  have htake : (xs.take k).filter p = [] := List.length_eq_zero_iff.1 (by omega)
  have hdrop : (xs.drop (k + 1)).filter p = [] := List.length_eq_zero_iff.1 (by omega)
  rw [hfilter, herase, List.filter_append, htake, hdrop]
  exact ⟨rfl, rfl⟩

end TradingTerminal.Lib
