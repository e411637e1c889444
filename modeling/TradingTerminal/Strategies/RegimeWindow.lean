import TradingTerminal.Lib.Consecutive
import TradingTerminal.Lib.Run
import TradingTerminal.Strategies.EnhancedIntraday
import TradingTerminal.Strategies.Windows
import Mathlib.Algebra.BigOperators.Ring.List

/-!
# What the regime depends on

`strategies/regime_detector.hpp` keeps the last hundred returns and volumes. After 101 ticks of
positive prices nothing that came before them is left, and the returns and the ratio of the volumes
have no unit: the regime is that of the 101 ticks, in whatever currency and lot size they are quoted
(`detect_window`).
-/

namespace TradingTerminal

open Lib

/-- A window that was filled anew holds nothing from before. -/
theorem foldl_pushWindow_of_le {n : Nat} (hn : 0 < n) (xs : List ℚ) {ys : List ℚ}
    (hlong : n ≤ ys.length) : ys.foldl (pushWindow n) xs = lastN n ys := by
  have hfold : ∀ ys : List ℚ, ys ≠ [] → ys.foldl (pushWindow n) xs = lastN n (xs ++ ys) := by
    intro ys hne
    induction ys using List.reverseRecOn with
    | nil => exact absurd rfl hne
    | append_singleton ys y ih =>
      rw [List.foldl_concat]
      by_cases hys : ys = []
      · subst hys
        rfl
      · rw [ih hys, pushWindow_lastN, List.append_assoc]
  have hne : ys ≠ [] := List.ne_nil_of_length_pos (by omega)
  rw [hfold ys hne]
  unfold lastN
  rw [List.length_append, List.drop_append]
  have hdrop : xs.drop (xs.length + ys.length - n) = [] := List.drop_eq_nil_of_le (by omega)
  rw [hdrop, List.nil_append]
  congr 1
  omega

namespace RegimeDetector

/-- A tick as the detector sees it: price and volume. -/
def addSample (r : RegimeDetector) (x : ℚ × ℚ) : RegimeDetector := r.addData x.1 x.2

def change (previous price : ℚ) : ℚ := (price - previous) / previous

/-- After a price the detector pushes the change to each following one. -/
theorem run_addSample {r : RegimeDetector} (hlast : r.hasLastPrice = true) (xs : List (ℚ × ℚ))
    (hpos : ∀ p ∈ (r.lastPrice :: xs.map Prod.fst).dropLast, 0 < p) :
    (run addSample r xs).returns =
        (consecutive change (r.lastPrice :: xs.map Prod.fst)).foldl (pushWindow 100) r.returns ∧
      (run addSample r xs).volumes = (xs.map Prod.snd).foldl (pushWindow 100) r.volumes := by
  induction xs generalizing r with
  | nil => exact ⟨rfl, rfl⟩
  | cons x xs ih =>
    have hprice : 0 < r.lastPrice := hpos _ (by simp)
    have hadd : r.addSample x =
        { r with
          returns := pushWindow 100 r.returns (change r.lastPrice x.1)
          volumes := pushWindow 100 r.volumes x.2
          lastPrice := x.1
          hasLastPrice := true } := by
      unfold addSample addData
      rw [if_pos ⟨hlast, hprice⟩]
      rfl
    have hrest : ∀ p ∈ (x.1 :: xs.map Prod.fst).dropLast, 0 < p := by
      intro p hp
      apply hpos p
      rw [List.map_cons, List.dropLast_cons_cons]
      exact List.mem_cons_of_mem _ hp
    obtain ⟨hreturns, hvolumes⟩ := ih (r := r.addSample x) (by rw [hadd]) (by rwa [hadd])
    rw [run_cons, hreturns, hvolumes, hadd]
    exact ⟨rfl, rfl⟩

@[simp] theorem run_addSample_thresholds (r : RegimeDetector) (xs : List (ℚ × ℚ)) :
    (run addSample r xs).highVolThreshold = r.highVolThreshold ∧
      (run addSample r xs).lowVolThreshold = r.lowVolThreshold := by
  induction xs generalizing r with
  | nil => exact ⟨rfl, rfl⟩
  | cons x xs ih =>
    rw [run_cons, (ih _).1, (ih _).2]
    unfold addSample addData
    dsimp only
    split <;> exact ⟨rfl, rfl⟩

/-- The windows after 101 ticks. -/
theorem run_window (r : RegimeDetector) {xs : List (ℚ × ℚ)} (hlong : 101 ≤ xs.length)
    (hpos : ∀ x ∈ xs.dropLast, 0 < x.1) :
    (run addSample r xs).returns = lastN 100 (consecutive change (xs.map Prod.fst)) ∧
      (run addSample r xs).volumes = lastN 100 (xs.tail.map Prod.snd) := by
  cases xs with
  | nil => simp at hlong
  | cons x xs =>
    rw [List.length_cons] at hlong
    have hprices : ∀ p ∈ (x.1 :: xs.map Prod.fst).dropLast, 0 < p := by
      have hmap : (x.1 :: xs.map Prod.fst).dropLast = ((x :: xs).dropLast).map Prod.fst := by
        rw [List.map_dropLast, List.map_cons]
      rw [hmap]
      intro p hp
      obtain ⟨y, hy, rfl⟩ := List.mem_map.1 hp
      exact hpos y hy
    have hlast : (r.addSample x).lastPrice = x.1 := rfl
    obtain ⟨hreturns, hvolumes⟩ := run_addSample (r := r.addSample x) rfl xs (by rwa [hlast])
    rw [run_cons, hreturns, hvolumes, hlast]
    constructor
    · exact foldl_pushWindow_of_le (by decide) _ (by simp; omega)
    · exact foldl_pushWindow_of_le (by decide) _ (by simp; omega)

/-! ## Units -/

/-- Ticks quoted in another currency and lot size. -/
def requote (k m : ℚ) (x : ℚ × ℚ) : ℚ × ℚ := (k * x.1, m * x.2)

theorem consecutive_change_mul {k : ℚ} (hk : k ≠ 0) (prices : List ℚ) :
    consecutive change (prices.map (k * ·)) = consecutive change prices := by
  unfold consecutive
  rw [← List.map_tail, List.zipWith_map]
  congr 1
  funext previous price
  unfold change
  rw [← mul_sub, mul_div_mul_left _ _ hk]

theorem lastN_map (f : ℚ → ℚ) (n : Nat) (xs : List ℚ) : lastN n (xs.map f) = (lastN n xs).map f := by
  unfold lastN
  rw [List.map_drop, List.length_map]

/-- The ratio of the volumes has no unit. -/
theorem calculateVolumeTrend_mul {r r' : RegimeDetector} {m : ℚ} (hm : 0 < m)
    (h : r'.volumes = r.volumes.map (m * ·)) : r'.calculateVolumeTrend = r.calculateVolumeTrend := by
  unfold calculateVolumeTrend
  have hsum : ∀ xs : List ℚ, (xs.map (m * ·)).sum = m * xs.sum := by
    intro xs
    rw [List.sum_map_mul_left, List.map_id']
  rw [h, List.length_map]
  split
  · rfl
  · have hmean : ∀ (xs : List ℚ) (n : ℚ), (xs.map (m * ·)).sum / n = m * (xs.sum / n) := by
      intro xs n
      rw [hsum, mul_div_assoc]
    simp only [← List.map_take, ← List.map_drop, hmean]
    by_cases hold : (r.volumes.take (r.volumes.length / 2)).sum / (r.volumes.length / 2 : Nat) > 0
    · rw [if_pos hold, if_pos (mul_pos hm hold), mul_div_mul_left _ _ hm.ne']
    · rw [if_neg hold, if_neg fun hmul => hold ((mul_pos_iff_of_pos_left hm).1 hmul)]

/-- **What the regime depends on.** After at least 101 ticks, of positive prices but perhaps the
last, two detectors of any pasts detect the same regime, also if the second one is shown the ticks
with the prices in another currency and the volumes in another lot size. -/
theorem detect_window (before before' : List (ℚ × ℚ)) {xs : List (ℚ × ℚ)} (hlong : 101 ≤ xs.length)
    (hpos : ∀ x ∈ xs.dropLast, 0 < x.1) {k m : ℚ} (hk : 0 < k) (hm : 0 < m) :
    (run addSample {} (before ++ xs)).detect =
      (run addSample {} (before' ++ xs.map (requote k m))).detect := by
  have hpos' : ∀ x ∈ (xs.map (requote k m)).dropLast, 0 < x.1 := by
    rw [← List.map_dropLast]
    intro x hx
    obtain ⟨y, hy, rfl⟩ := List.mem_map.1 hx
    exact mul_pos hk (hpos y hy)
  rw [run_append, run_append]
  obtain ⟨hreturns, hvolumes⟩ := run_window (run addSample {} before) hlong hpos
  have hlong' : 101 ≤ (xs.map (requote k m)).length := by rwa [List.length_map]
  obtain ⟨hreturns', hvolumes'⟩ := run_window (run addSample {} before') hlong' hpos'
  have hprices : (xs.map (requote k m)).map Prod.fst = (xs.map Prod.fst).map (k * ·) := by
    rw [List.map_map, List.map_map]
    rfl
  have hsizes : (xs.map (requote k m)).tail.map Prod.snd = (xs.tail.map Prod.snd).map (m * ·) := by
    rw [← List.map_tail, List.map_map, List.map_map]
    rfl
  rw [hprices, consecutive_change_mul hk.ne', ← hreturns] at hreturns'
  rw [hsizes, lastN_map, ← hvolumes] at hvolumes'
  have htrend := calculateVolumeTrend_mul hm hvolumes'
  unfold detect calculateVolatility
  rw [hreturns', htrend]
  simp

/-- A rise of one a tick, in dollars. -/
def climb : List (ℚ × ℚ) := (List.range 101).map fun (i : Nat) => (100 + (i : ℚ), 10)

/-- In cents and round lots, after a tick of another day. -/
theorem climb_requoted :
    (run addSample {} ([] ++ climb)).detect =
      (run addSample {} ([(90, 5)] ++ climb.map (requote 100 (1 / 100)))).detect := by
  refine detect_window [] [(90, 5)] (by simp [climb]) (fun x hx => ?_) (by norm_num) (by norm_num)
  obtain ⟨i, -, rfl⟩ := List.mem_map.1 (List.mem_of_mem_dropLast hx)
  have hprice : (0 : ℚ) < 100 + i := by positivity
  exact hprice

end RegimeDetector

end TradingTerminal
