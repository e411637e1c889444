import TradingTerminal.Strategies.EnhancedIntraday
import TradingTerminal.Strategies.Windows

/-!
# The Kelly fraction

`KellyPositionSizer` on the end of a history of returns. Between its early returns the fraction is
clamped to 1% and 15%; a sample without a loss is given 25% before the clamp, so the cap holds
exactly where the window has a loss (`kellyInRange_iff`).
-/

namespace TradingTerminal

namespace KellyPositionSizer

/-- A sizer that was told a history of returns. -/
def ofReturns (history : List ℚ) : KellyPositionSizer := history.foldl addReturn {}

theorem ofReturns_eq (history : List ℚ) : ofReturns history = { returns := lastN 100 history } := by
  have hfold : ∀ k : KellyPositionSizer, history.foldl addReturn k =
      { k with returns := history.foldl (pushWindow k.maxHistory) k.returns } := by
    induction history with
    | nil => exact fun k => rfl
    | cons r history ih => exact fun k => ih (k.addReturn r)
  rw [ofReturns, hfold, foldl_pushWindow]

/-- What the fraction of a history promises: it stays between its bounds, and a window without a
gain is given the lower one. -/
structure KellyInRange (history : List ℚ) : Prop where
  small : history.length < 20 → (ofReturns history).calculateKelly = 2 / 100
  cap : 20 ≤ history.length → (ofReturns history).calculateKelly ≤ 15 / 100
  floor : 20 ≤ history.length → 1 / 100 ≤ (ofReturns history).calculateKelly
  edge : 20 ≤ history.length → (∀ r ∈ lastN 100 history, r ≤ 0) →
    (ofReturns history).calculateKelly = 1 / 100

/-! ## The averages -/

theorem losses_sum (returns : List ℚ) : (returns.filter (¬ · > 0)).sum ≤ 0 ∧
    ((returns.filter (¬ · > 0)).sum = 0 ↔ ∀ r ∈ returns, 0 ≤ r) := by
  induction returns with
  | nil => simp
  | cons r returns ih =>
    obtain ⟨hle, hiff⟩ := ih
    by_cases hr : r > 0
    · rw [List.filter_cons_of_neg (by simpa using hr)]
      refine ⟨hle, ?_⟩
      rw [hiff, List.forall_mem_cons]
      exact ⟨fun h => ⟨hr.le, h⟩, fun h => h.2⟩
    · have hr0 := not_lt.1 hr
      rw [List.filter_cons_of_pos (by simpa using hr), List.sum_cons, List.forall_mem_cons, ← hiff]
      refine ⟨by linarith, fun h => ⟨by linarith, by linarith⟩, ?_⟩
      rintro ⟨hnonneg, hsum⟩
      linarith

/-- The mean loss is zero exactly if nothing was lost. -/
theorem avgLoss_eq_zero_iff (returns : List ℚ) :
    (if (returns.filter (¬ · > 0)).length > 0 then
      -(returns.filter (¬ · > 0)).sum / (returns.filter (¬ · > 0)).length else 0) = (0 : ℚ) ↔
      ∀ r ∈ returns, 0 ≤ r := by
  rw [← (losses_sum returns).2]
  by_cases hlength : (returns.filter (¬ · > 0)).length > 0
  · rw [if_pos hlength, div_eq_zero_iff, neg_eq_zero, or_iff_left]
    exact_mod_cast hlength.ne'
  · rw [if_neg hlength]
    have hnil : returns.filter (¬ · > 0) = [] := List.length_eq_zero_iff.1 (by omega)
    rw [hnil]
    simp

/-- A window without a gain has a mean gain of zero. -/
theorem filter_pos_eq_nil {returns : List ℚ} (h : ∀ r ∈ returns, r ≤ 0) :
    returns.filter (· > 0) = [] := by
  rw [List.filter_eq_nil_iff]
  intro r hr
  simpa using h r hr

/-! ## The fraction -/

variable {k : KellyPositionSizer}

theorem calculateKelly_of_short (h : k.returns.length < 20) : k.calculateKelly = 2 / 100 := if_pos h

/-- A sample without a loss is not clamped. -/
theorem calculateKelly_of_noLoss (h : 20 ≤ k.returns.length) (hnone : ∀ r ∈ k.returns, 0 ≤ r) :
    k.calculateKelly = 25 / 100 := by
  unfold calculateKelly
  rw [if_neg (not_lt.2 h)]
  exact if_pos ((avgLoss_eq_zero_iff k.returns).2 hnone)

/-- A sample with a loss is clamped. -/
theorem calculateKelly_of_loss (h : 20 ≤ k.returns.length) (hloss : ¬ ∀ r ∈ k.returns, 0 ≤ r) :
    ∃ halfKelly, k.calculateKelly = max (1 / 100) (min (15 / 100) halfKelly) ∧
      ((∀ r ∈ k.returns, r ≤ 0) → halfKelly = 0) := by
  have hne := (avgLoss_eq_zero_iff k.returns).not.2 hloss
  unfold calculateKelly
  rw [if_neg (not_lt.2 h)]
  dsimp only
  rw [if_neg hne]
  refine ⟨_, rfl, fun hlost => ?_⟩
  -- the odds are zero; a division by them leaves minus infinity, which is clamped all the same
  rw [filter_pos_eq_nil hlost]
  simp

/-- **The Kelly fraction.** For every history of returns the fraction is the default, or between its
bounds and at the lower one without a gain, if and only if the sample is small or the window has a
loss. -/
theorem kellyInRange_iff (history : List ℚ) :
    KellyInRange history ↔ history.length < 20 ∨ ∃ r ∈ lastN 100 history, r < 0 := by
  have hreturns : (ofReturns history).returns = lastN 100 history := by rw [ofReturns_eq]
  have hlength : (ofReturns history).returns.length = min 100 history.length := by
    rw [hreturns, length_lastN]
  by_cases hsmall : history.length < 20
  · refine iff_of_true ⟨fun _ => calculateKelly_of_short (by omega), ?_, ?_, ?_⟩ (Or.inl hsmall)
    all_goals exact fun h => absurd hsmall (by omega)
  · rw [or_iff_right hsmall]
    have hlong : 20 ≤ (ofReturns history).returns.length := by omega
    by_cases hnone : ∀ r ∈ lastN 100 history, 0 ≤ r
    · refine iff_of_false (fun h => ?_) ?_
      · have hcap := h.cap (by omega)
        rw [calculateKelly_of_noLoss hlong (hreturns ▸ hnone)] at hcap
        norm_num at hcap
      · rintro ⟨r, hr, hneg⟩
        exact absurd (hnone r hr) (by linarith)
    · refine iff_of_true ?_ (by simpa using hnone)
      obtain ⟨halfKelly, hkelly, hedge⟩ := calculateKelly_of_loss hlong (hreturns ▸ hnone)
      refine ⟨fun h => absurd h hsmall, fun _ => ?_, fun _ => ?_, fun _ hlost => ?_⟩
      · rw [hkelly]
        exact max_le (by norm_num) (min_le_left _ _)
      · rw [hkelly]
        exact le_max_left _ _
      · rw [hkelly, hedge (hreturns ▸ hlost)]
        norm_num

/-- Twenty gains are given a quarter of the capital. -/
theorem twentyGains_not_inRange : ¬ KellyInRange (List.replicate 20 (1 / 100)) := by
  intro h
  exact absurd (h.cap (by decide)) (by decide +kernel)

/-! ## The cap on the position -/

theorem calculateKelly_ge (k : KellyPositionSizer) : 1 / 100 ≤ k.calculateKelly := by
  by_cases hshort : k.returns.length < 20
  · rw [calculateKelly_of_short hshort]
    norm_num
  · have hlong := not_lt.1 hshort
    by_cases hnone : ∀ r ∈ k.returns, 0 ≤ r
    · rw [calculateKelly_of_noLoss hlong hnone]
      norm_num
    · obtain ⟨halfKelly, hkelly, -⟩ := calculateKelly_of_loss hlong hnone
      rw [hkelly]
      exact le_max_left _ _

/-- The position size of a capital does not depend on the returns. -/
theorem calculatePositionSize_eq (k : KellyPositionSizer) {capital : ℚ} (hcapital : 0 ≤ capital)
    (price : ℚ) :
    k.calculatePositionSize capital price = if price ≤ 0 then 0 else capital / (4 * price) := by
  have hkelly := k.calculateKelly_ge
  unfold calculatePositionSize
  dsimp only
  by_cases hprice : price ≤ 0
  · rw [if_pos (by linarith), if_pos hprice]
  · have hpos : 0 < price := not_le.1 hprice
    have hcap : capital * (25 / 100) / price = capital / (4 * price) := by
      field_simp
      ring
    rw [if_neg (by linarith), if_neg hprice, hcap]
    apply min_eq_right
    rw [div_le_div_iff₀ (by linarith) (by linarith)]
    have hshare : 0 ≤ capital * price := mul_nonneg hcapital hpos.le
    calc capital * (price * (2 / 100)) = capital * price * (2 / 100) := by ring
      _ ≤ capital * price * (4 * k.calculateKelly) := by
        apply mul_le_mul_of_nonneg_left _ hshare
        linarith
      _ = capital * k.calculateKelly * (4 * price) := by ring

end KellyPositionSizer

end TradingTerminal
