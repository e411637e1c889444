import Mathlib.Algebra.BigOperators.Group.List.Basic
import Mathlib.Algebra.Order.Floor.Ring
import Mathlib.Data.Rat.Floor
import Mathlib.Tactic.Linarith
import Mathlib.Tactic.Ring

/-!
# Averages over part of the samples

Every sample is added to a total, but only some are counted. The total over the count is then not an
average of anything, and it stays below the largest sample exactly if the samples left uncounted add
up to no more than the counted ones fall short of the largest (`total_add_shortfall`). The counters
may be kept modulo `width`; what a counter has lost then is `lost`.
-/

namespace TradingTerminal.Lib

/-- A measured value, and whether it is counted. -/
structure Sample where
  value : Nat
  counted : Bool
  deriving DecidableEq, Repr

namespace Sample

def total (xs : List Sample) : Nat := (xs.map value).sum

def count (xs : List Sample) : Nat := xs.countP counted

/-- The largest value, `0` if there is none. -/
def largest (xs : List Sample) : Nat := (xs.map value).foldr max 0

/-- What the values that are not counted add up to. -/
def uncounted (xs : List Sample) : Nat := (xs.map fun x => if x.counted then 0 else x.value).sum

/-- What the counted values fall short of a bound by, in total. -/
def shortfall (bound : Nat) (xs : List Sample) : Nat :=
  (xs.map fun x => if x.counted then bound - x.value else 0).sum

/-- What a counter modulo `width` has lost of a number. -/
def lost (width n : Nat) : Nat := width * (n / width)

theorem mod_add_lost (width n : Nat) : n % width + lost width n = n := Nat.mod_add_div n width

/-! ## One more sample -/

@[simp] theorem total_concat (xs : List Sample) (x : Sample) :
    total (xs ++ [x]) = total xs + x.value := by
  simp [total]

@[simp] theorem count_concat (xs : List Sample) (x : Sample) :
    count (xs ++ [x]) = count xs + if x.counted then 1 else 0 := by
  simp [count, List.countP_append, List.countP_cons]

@[simp] theorem largest_concat (xs : List Sample) (x : Sample) :
    largest (xs ++ [x]) = max (largest xs) x.value := by
  unfold largest
  induction xs with
  | nil => simp
  | cons y ys ih => simp only [List.cons_append, List.map_cons, List.foldr_cons, ih, max_assoc]

/-! ## The largest sample -/

theorem le_largest {xs : List Sample} {x : Sample} (hx : x ∈ xs) : x.value ≤ largest xs := by
  induction xs with
  | nil => cases hx
  | cons y ys ih =>
    simp only [largest, List.map_cons, List.foldr_cons]
    rcases List.mem_cons.1 hx with rfl | hx
    · exact le_max_left _ _
    · exact (ih hx).trans (le_max_right _ _)

theorem exists_eq_largest {xs : List Sample} (hne : xs ≠ []) : ∃ x ∈ xs, x.value = largest xs := by
  induction xs with
  | nil => exact absurd rfl hne
  | cons y ys ih =>
    simp only [largest, List.map_cons, List.foldr_cons]
    rcases le_total (largest ys) y.value with h | h
    · exact ⟨y, List.mem_cons_self, (max_eq_left h).symm⟩
    · cases ys with
      | nil => exact ⟨y, List.mem_cons_self, by simp⟩
      | cons z zs =>
        obtain ⟨x, hx, hlargest⟩ := ih (List.cons_ne_nil z zs)
        exact ⟨x, List.mem_cons_of_mem y hx, hlargest.trans (max_eq_right h).symm⟩

/-! ## The total against the count -/

/-- The counted values filled up to a bound, and the uncounted ones, make up the total. -/
theorem total_add_shortfall {bound : Nat} {xs : List Sample} (h : ∀ x ∈ xs, x.value ≤ bound) :
    total xs + shortfall bound xs = bound * count xs + uncounted xs := by
  induction xs with
  | nil => rfl
  | cons x xs ih =>
    obtain ⟨hx, hxs⟩ := List.forall_mem_cons.1 h
    have ih := ih hxs
    have hfill := Nat.add_sub_of_le hx
    simp only [total, count, uncounted, shortfall, List.map_cons, List.sum_cons,
      List.countP_cons] at ih ⊢
    cases x.counted with
    | false => simp only [Bool.false_eq_true, ite_false, Nat.add_zero, Nat.zero_add]; omega
    | true => simp only [ite_true, Nat.mul_add, Nat.mul_one, Nat.zero_add]; omega

/-- The same for the counters, scaled by `a` and with a slack of `b` for every counted sample. -/
theorem scaled_total_add (width a b : Nat) (xs : List Sample) :
    a * (total xs % width) +
        (a * shortfall (largest xs) xs + b * count xs + a * lost width (total xs)) =
      (a * largest xs + b) * (count xs % width) +
        (a * uncounted xs + (a * largest xs + b) * lost width (count xs)) := by
  have hsum := total_add_shortfall fun x (hx : x ∈ xs) => le_largest hx
  have htotal := mod_add_lost width (total xs)
  have hcount := mod_add_lost width (count xs)
  calc
    _ = a * (total xs % width + lost width (total xs) + shortfall (largest xs) xs) +
        b * count xs := by ring
    _ = a * (largest xs * count xs + uncounted xs) + b * count xs := by rw [htotal, hsum]
    _ = (a * largest xs + b) * count xs + a * uncounted xs := by ring
    _ = (a * largest xs + b) * (count xs % width + lost width (count xs)) +
        a * uncounted xs := by rw [hcount]
    _ = _ := by ring

/-- **The average rounded down**, from counters kept modulo `width`, is at most the largest sample
exactly if nothing is counted, or if the uncounted samples make up less than one for every counted
sample on top of what the counted ones fall short of. -/
theorem div_le_largest_iff (width : Nat) (xs : List Sample) :
    total xs % width / (count xs % width) ≤ largest xs ↔
      count xs % width = 0 ∨
        uncounted xs + (largest xs + 1) * lost width (count xs) <
          shortfall (largest xs) xs + count xs + lost width (total xs) := by
  have hadd := scaled_total_add width 1 1 xs
  simp only [Nat.one_mul] at hadd
  rcases Nat.eq_zero_or_pos (count xs % width) with h0 | hpos
  · simp [h0]
  · rw [← Nat.lt_add_one_iff, Nat.div_lt_iff_lt_mul hpos]
    simp only [Nat.ne_of_gt hpos, false_or]
    omega

end Sample

end TradingTerminal.Lib
