import Mathlib.Data.Finset.Card
import Mathlib.Data.List.Dedup

/-!
# Recency lists

A list without repetitions, most recently used first. `touch k` moves `k` to the front, or puts it
there; `recency` orders the distinct elements of a history, given latest first, by their latest
occurrence. `take_touch_take` is the inclusion property of least-recently-used replacement: what the
first `n` elements are after a touch depends on what they were before, not on anything behind them.
`mem_take_recency_iff` counts: an element is among the first `n` if fewer than `n` other elements
have occurred since it last did.
-/

namespace TradingTerminal.Lib

variable {κ : Type*} [DecidableEq κ]

/-- Bring `k` to the front. -/
def touch (k : κ) (l : List κ) : List κ := k :: l.erase k

/-- The distinct elements of a history, latest first. -/
def recency : List κ → List κ
  | [] => []
  | k :: older => touch k (recency older)

theorem length_touch_of_mem {k : κ} {l : List κ} (h : k ∈ l) : (touch k l).length = l.length := by
  rw [touch, List.length_cons, List.length_erase_of_mem h]
  have := List.length_pos_of_mem h
  omega

theorem take_erase_take (k : κ) (l : List κ) {m n : Nat} (h : m < n) :
    ((l.take n).erase k).take m = (l.erase k).take m := by
  induction l generalizing m n with
  | nil => simp
  | cons x l ih =>
    obtain ⟨n, rfl⟩ := Nat.exists_eq_succ_of_ne_zero (Nat.ne_zero_of_lt h)
    rw [List.take_succ_cons]
    by_cases hx : x = k
    · subst hx
      rw [List.erase_cons_head, List.erase_cons_head, List.take_take, Nat.min_eq_left (by omega)]
    · rw [List.erase_cons_tail (by simpa using hx), List.erase_cons_tail (by simpa using hx)]
      cases m with
      | zero => rfl
      | succ m => rw [List.take_succ_cons, List.take_succ_cons, ih (by omega)]

/-- **Inclusion.** Touching the first `n` elements and cutting off again gives the first `n` elements
of the touched list. -/
theorem take_touch_take (k : κ) (l : List κ) (n : Nat) :
    (touch k (l.take n)).take n = (touch k l).take n := by
  cases n with
  | zero => rfl
  | succ m =>
    unfold touch
    rw [List.take_succ_cons, List.take_succ_cons, take_erase_take k l (Nat.lt_succ_self m)]

/-- A touch of one of the first `n` elements pushes nothing out. -/
theorem take_touch_of_mem {k : κ} {l : List κ} {n : Nat} (h : k ∈ l.take n) :
    (touch k l).take n = touch k (l.take n) := by
  rw [← take_touch_take, List.take_of_length_le]
  rw [length_touch_of_mem h]
  exact List.length_take_le n l

/-! ## How far back an element is -/

theorem mem_recency {k : κ} {l : List κ} : k ∈ recency l ↔ k ∈ l := by
  induction l with
  | nil => rfl
  | cons x l ih =>
    rw [recency, touch, List.mem_cons, List.mem_cons]
    by_cases hk : k = x
    · simp [hk]
    · rw [List.mem_erase_of_ne hk, ih]

theorem nodup_recency (l : List κ) : (recency l).Nodup := by
  induction l with
  | nil => exact List.nodup_nil
  | cons x l ih => exact List.nodup_cons.2 ⟨ih.not_mem_erase, ih.erase x⟩

theorem length_recency (l : List κ) : (recency l).length = l.toFinset.card := by
  rw [← List.toFinset_card_of_nodup (nodup_recency l)]
  congr 1
  ext k
  rw [List.mem_toFinset, List.mem_toFinset, mem_recency]

/-- What has occurred since stands before what has not. -/
theorem recency_append (later older : List κ) :
    recency (later ++ older) = recency later ++ (recency older).filter (· ∉ later) := by
  induction later with
  | nil => simp [recency]
  | cons x later ih =>
    rw [List.cons_append, recency, ih, touch, recency, touch, List.cons_append]
    congr 1
    by_cases hx : x ∈ later
    · rw [List.erase_append_left _ (mem_recency.2 hx)]
      congr 1
      apply List.filter_congr
      intro k _
      by_cases hk : k = x <;> simp [hk, hx]
    · have hnot : x ∉ recency later := fun hmem => hx (mem_recency.1 hmem)
      rw [List.erase_append_right _ hnot, List.erase_of_not_mem hnot,
        ((nodup_recency older).filter _).erase_eq_filter, List.filter_filter]
      congr 1
      apply List.filter_congr
      intro k _
      by_cases hk : k = x <;> simp [hk]

/-- **How far back.** An element is among the `n` most recent ones exactly if it has occurred and
fewer than `n` others have since. -/
theorem mem_take_recency_iff {k : κ} {l : List κ} {n : Nat} :
    k ∈ (recency l).take n ↔ k ∈ l ∧ (l.takeWhile (· ≠ k)).toFinset.card < n := by
  by_cases hk : k ∈ l
  · obtain ⟨later, older, rfl, hnot⟩ := List.eq_append_cons_of_mem hk
    have hsince : (later ++ k :: older).takeWhile (· ≠ k) = later := by
      rw [List.takeWhile_append_of_pos, List.takeWhile_cons_of_neg (by simp), List.append_nil]
      intro x hx
      simp only [decide_eq_true_eq]
      rintro rfl
      exact hnot hx
    have hindex : (recency (later ++ k :: older)).idxOf k = (recency later).length := by
      rw [recency_append, recency, touch, List.filter_cons_of_pos (by simpa using hnot),
        List.idxOf_append_of_notMem fun hmem => hnot (mem_recency.1 hmem), List.idxOf_cons_self,
        Nat.add_zero]
    rw [List.mem_take_iff_idxOf_lt (mem_recency.2 hk), and_iff_right hk, hsince, hindex,
      length_recency]
  · refine iff_of_false (fun hmem => hk (mem_recency.1 (List.mem_of_mem_take hmem))) ?_
    exact fun h => hk h.1

end TradingTerminal.Lib
