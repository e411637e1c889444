import TradingTerminal.Strategies.CheckedDivision
import TradingTerminal.Risk.KellyFraction

/-!
# The enhanced intraday strategy with checked divisions

`generate_signal` of the strategy with the breaker, the regime detector and the Kelly sizer it
calls, as in the modules they come from, with every division by a variable checked. Three of the
divisions can stop it: by the capital of the breaker, by the odds of the Kelly sizer and, for the
line printed on an entry, by the size of the strategy.
-/

namespace TradingTerminal

open Lib

/-! ## The breaker -/

namespace CircuitBreaker.Checked

def canTrade (b : CircuitBreaker) (now : TimePoint) : Option (Bool × CircuitBreaker) :=
  let b := b.checkAndResetDaily now
  if b.tripped then return (false, b)
  else do
    let lossPercent ← checkedDiv (-b.dailyPnl) b.initialCapital
    if lossPercent ≥ b.dailyLossLimit then return (false, { b with tripped := true })
    else if b.tradeCount ≥ b.maxDailyTrades then return (false, b)
    else return (true, b)

/-- The breaker is out for the day, or it knows its capital. -/
def Defined (b : CircuitBreaker) (now : TimePoint) : Prop :=
  (b.checkAndResetDaily now).tripped = true ∨ b.initialCapital ≠ 0

instance (b : CircuitBreaker) (now : TimePoint) : Decidable (Defined b now) :=
  inferInstanceAs (Decidable (_ ∨ _))

theorem canTrade_eq (b : CircuitBreaker) (now : TimePoint) :
    DefinedWhere (Defined b now) (canTrade b now) (b.canTrade now) := by
  have hcapital : (b.checkAndResetDaily now).initialCapital = b.initialCapital := by
    unfold checkAndResetDaily
    split <;> rfl
  unfold Defined canTrade CircuitBreaker.canTrade
  rw [← hcapital]
  generalize b.checkAndResetDaily now = b
  dsimp only
  by_cases htripped : b.tripped = true
  · rw [if_pos htripped, if_pos htripped]
    exact ⟨fun _ => rfl, fun h => absurd (Or.inl htripped) h⟩
  · rw [if_neg htripped, if_neg htripped, or_iff_right htripped]
    constructor
    · intro h
      rw [checkedDiv_of_ne h, Option.bind_eq_bind, Option.bind_some]
      split
      · rfl
      · split <;> rfl
    · intro h
      rw [not_not.1 h]
      rfl

end CircuitBreaker.Checked

/-! ## The regime detector -/

namespace RegimeDetector.Checked

def addData (r : RegimeDetector) (price volume : ℚ) : Option RegimeDetector := do
  let r ←
    if r.hasLastPrice ∧ r.lastPrice > 0 then do
      let change ← checkedDiv (price - r.lastPrice) r.lastPrice
      pure { r with
        returns := pushWindow 100 r.returns change
        volumes := pushWindow 100 r.volumes volume }
    else pure r
  return { r with lastPrice := price, hasLastPrice := true }

def calculateVolatility (r : RegimeDetector) : Option ℚ :=
  if r.returns.length < 20 then return 1 / 100
  else do
    let variance ← Checked.varianceOf r.returns
    return sqrt variance

def calculateVolumeTrend (r : RegimeDetector) : Option ℚ :=
  if r.volumes.length < 20 then return 1 else Checked.volumeRatioOf r.volumes

def detect (r : RegimeDetector) : Option Regime := do
  let vol ← calculateVolatility r
  let volumeRatio ← calculateVolumeTrend r
  if vol > r.highVolThreshold * 2 then return .crash
  else if vol > r.highVolThreshold then return .highVolBear
  else if vol < r.lowVolThreshold ∧ volumeRatio > 12 / 10 then return .lowVolBull
  else return .normalBull

def getPositionMultiplier (r : RegimeDetector) : Option ℚ := do
  match ← detect r with
  | .lowVolBull => return 15 / 10
  | .normalBull => return 1
  | .highVolBear => return 5 / 10
  | .crash => return 0

theorem addData_eq (r : RegimeDetector) (price volume : ℚ) :
    addData r price volume = some (r.addData price volume) := by
  unfold addData RegimeDetector.addData
  by_cases hlast : r.hasLastPrice ∧ r.lastPrice > 0
  · rw [if_pos hlast, if_pos hlast, checkedDiv_of_ne hlast.2.ne']
    rfl
  · rw [if_neg hlast, if_neg hlast]
    rfl

theorem detect_eq (r : RegimeDetector) : detect r = some r.detect := by
  have hvol : calculateVolatility r = some r.calculateVolatility := by
    unfold calculateVolatility RegimeDetector.calculateVolatility
    split
    · rfl
    · rw [Checked.varianceOf_eq (by omega)]
      rfl
  have hvolumes : calculateVolumeTrend r = some r.calculateVolumeTrend := by
    unfold calculateVolumeTrend RegimeDetector.calculateVolumeTrend
    split
    · rfl
    · exact Checked.volumeRatioOf_eq (by omega)
  simp only [detect, hvol, hvolumes, Option.bind_eq_bind, Option.bind_some]
  unfold RegimeDetector.detect
  dsimp only
  split
  · rfl
  · split
    · rfl
    · split <;> rfl

theorem getPositionMultiplier_eq (r : RegimeDetector) :
    getPositionMultiplier r = some r.getPositionMultiplier := by
  unfold getPositionMultiplier RegimeDetector.getPositionMultiplier
  rw [detect_eq, Option.bind_eq_bind, Option.bind_some]
  cases r.detect <;> rfl

end RegimeDetector.Checked

/-! ## The Kelly sizer -/

namespace KellyPositionSizer.Checked

/-- The mean gain or the mean loss, zero if there is none. -/
def average (total : ℚ) (count : Nat) : Option ℚ :=
  if count > 0 then checkedDiv total count else some 0

def calculateKelly (k : KellyPositionSizer) : Option ℚ :=
  if k.returns.length < 20 then return 2 / 100
  else do
    let winning := k.returns.filter (· > 0)
    let losing := k.returns.filter (¬ · > 0)
    let winRate ← checkedDiv (winning.length : ℚ) k.returns.length
    let avgWin ← average winning.sum winning.length
    let avgLoss ← average (-losing.sum) losing.length
    if avgLoss = 0 then return 25 / 100
    else do
      let b ← checkedDiv avgWin avgLoss
      let kelly ← checkedDiv (winRate * b - (1 - winRate)) b
      return max (1 / 100) (min (15 / 100) (kelly / 2))

def calculatePositionSize (k : KellyPositionSizer) (capital entryPrice : ℚ)
    (stopLossPct : ℚ := 2 / 100) : Option ℚ := do
  let riskPerTrade ← calculateKelly k
  let riskAmount := capital * riskPerTrade
  let stopDistance := entryPrice * stopLossPct
  if stopDistance ≤ 0 then return 0
  else do
    let shares ← checkedDiv riskAmount stopDistance
    let maxShares ← checkedDiv (capital * (25 / 100)) entryPrice
    return min shares maxShares

/-- A sample with a loss has a gain. -/
def Defined (k : KellyPositionSizer) : Prop :=
  20 ≤ k.returns.length → (∃ r ∈ k.returns, r < 0) → ∃ r ∈ k.returns, 0 < r

instance (k : KellyPositionSizer) : Decidable (Defined k) := inferInstanceAs (Decidable (_ → _ → _))

theorem average_eq (total : ℚ) (count : Nat) :
    average total count = some (if count > 0 then total / count else 0) := by
  unfold average
  split
  · next hpos => exact checkedDiv_natCast hpos _
  · rfl

/-- The mean gain is zero exactly if nothing was gained. -/
theorem avgWin_eq_zero_iff (returns : List ℚ) :
    (if (returns.filter (· > 0)).length > 0 then
      (returns.filter (· > 0)).sum / (returns.filter (· > 0)).length else 0) = (0 : ℚ) ↔
      ∀ r ∈ returns, r ≤ 0 := by
  constructor
  · intro h r hr
    by_contra hpos
    have hmem : r ∈ returns.filter (· > 0) :=
      List.mem_filter.2 ⟨hr, decide_eq_true (not_le.1 hpos)⟩
    have hlength := List.length_pos_of_mem hmem
    rw [if_pos hlength] at h
    have hmean := meanOf_pos (List.ne_nil_of_mem hmem) fun x hx =>
      of_decide_eq_true (List.mem_filter.1 hx).2
    exact absurd h hmean.ne'
  · intro h
    rw [filter_pos_eq_nil h]
    rfl

theorem calculateKelly_eq (k : KellyPositionSizer) :
    DefinedWhere (Defined k) (calculateKelly k) k.calculateKelly := by
  unfold Defined calculateKelly KellyPositionSizer.calculateKelly
  by_cases hshort : k.returns.length < 20
  · rw [if_pos hshort, if_pos hshort]
    exact ⟨fun _ => rfl, fun h => absurd (fun hlong => absurd hshort (not_lt.2 hlong)) h⟩
  · have hlong := not_lt.1 hshort
    have hwin := (avgWin_eq_zero_iff k.returns)
    have hloss := (avgLoss_eq_zero_iff k.returns)
    rw [if_neg hshort, if_neg hshort]
    simp only [checkedDiv_natCast (by omega : 0 < k.returns.length), average_eq,
      Option.bind_eq_bind, Option.bind_some]
    by_cases hnone : ∀ r ∈ k.returns, 0 ≤ r
    · rw [if_pos (hloss.2 hnone), if_pos (hloss.2 hnone)]
      refine ⟨fun _ => rfl, fun h => absurd (fun _ hlost => ?_) h⟩
      obtain ⟨r, hr, hneg⟩ := hlost
      exact absurd (hnone r hr) (not_le.2 hneg)
    · have hne := hloss.not.2 hnone
      rw [if_neg hne, if_neg hne, checkedDiv_of_ne hne, Option.bind_some]
      push Not at hnone
      by_cases hlost : ∀ r ∈ k.returns, r ≤ 0
      · rw [hwin.2 hlost, zero_div]
        refine ⟨fun h => ?_, fun _ => rfl⟩
        obtain ⟨r, hr, hpos⟩ := h hlong hnone
        exact absurd (hlost r hr) (not_le.2 hpos)
      · have hodds := div_ne_zero (hwin.not.2 hlost) hne
        push Not at hlost
        rw [checkedDiv_of_ne hodds]
        exact ⟨fun _ => rfl, fun h => absurd (fun _ _ => hlost) h⟩

theorem calculatePositionSize_eq (k : KellyPositionSizer) (capital entryPrice : ℚ) :
    DefinedWhere (Defined k) (calculatePositionSize k capital entryPrice)
      (k.calculatePositionSize capital entryPrice) := by
  obtain ⟨hdefined, hundefined⟩ := calculateKelly_eq k
  unfold calculatePositionSize KellyPositionSizer.calculatePositionSize
  constructor
  · intro h
    rw [hdefined h, Option.bind_eq_bind, Option.bind_some]
    dsimp only
    split
    · rfl
    · next hpos =>
      have hentry : entryPrice ≠ 0 := by
        rintro rfl
        exact hpos (by norm_num)
      rw [checkedDiv_of_ne (not_le.1 hpos).ne', checkedDiv_of_ne hentry]
      rfl
  · intro h
    rw [hundefined h]
    rfl

end KellyPositionSizer.Checked

/-! ## The strategy -/

namespace EnhancedIntradayStrategy.Checked

def calculateEma (prices : List ℚ) (period : Nat) : Option ℚ :=
  if prices.length < period then return prices.getLastD 0
  else do
    let multiplier ← checkedDiv 2 ((period : ℚ) + 1)
    return prices.tail.foldl (fun ema price => (price - ema) * multiplier + ema) (prices.headD 0)

def calculateRsi (s : EnhancedIntradayStrategy) : Option ℚ :=
  if s.priceHistory.length < s.rsiPeriod + 1 then return 50
  else do
    let (gain, loss) := gainsAndLosses (lastN (s.rsiPeriod + 1) s.priceHistory)
    let gain ← checkedDiv gain s.rsiPeriod
    let loss ← checkedDiv loss s.rsiPeriod
    Checked.strengthOf gain loss

def recordTick (s : EnhancedIntradayStrategy) (tick : Tick) : Option EnhancedIntradayStrategy := do
  let regime ← RegimeDetector.Checked.addData s.regime tick.price tick.volume
  return { s with priceHistory := pushWindow 100 s.priceHistory tick.price, regime }

def shouldExit (s : EnhancedIntradayStrategy) (price : ℚ) : Option Bool := do
  let rsi ← calculateRsi s
  let priceChange ←
    if s.entryPrice > 0 then checkedDiv (price - s.entryPrice) s.entryPrice else some 0
  return rsi > 70 || priceChange ≤ -2 / 100 || priceChange ≥ 5 / 100

def entryReason (s : EnhancedIntradayStrategy) (price : ℚ) : Option (Option String) := do
  let emaFast ← calculateEma s.priceHistory s.emaFastPeriod
  let emaSlow ← calculateEma s.priceHistory s.emaSlowPeriod
  let rsi ← calculateRsi s
  return if emaFast > emaSlow ∧ rsi < 70 ∧ rsi > 30 then some "trend_up"
    else if rsi < 30 ∧ price < emaSlow * (99 / 100) then some "rsi_oversold"
    else none

/-- `generate_signal` once trading is allowed and enough prices are known. The averages and the RSI
are computed before the regime is asked. -/
def sized (s : EnhancedIntradayStrategy) (tick : Tick) :
    Option (Signal × EnhancedIntradayStrategy) := do
  let signal : Signal := { symbol := tick.symbol }
  let rsi ← calculateRsi s
  let reason ← entryReason s tick.price
  let multiplier ← RegimeDetector.Checked.getPositionMultiplier s.regime
  if multiplier = 0 then return (signal, s)
  else do
    let kellySize ← KellyPositionSizer.Checked.calculatePositionSize s.kelly s.capital tick.price
    let size := min (s.positionSize * multiplier) kellySize
    if s.inPosition ∧ !s.pendingExit then do
      let exit ← shouldExit s tick.price
      if exit then
        return ({ signal with
            orders := [marketOrder tick.symbol tick.bid size false]
            valid := true, reason := "exit" },
          { s with pendingExit := true, pnl := s.pnl + (tick.price - s.entryPrice) * size })
      else return (signal, s)
    else if !s.inPosition ∧ !s.pendingExit then
      match reason with
      | some reason => do
        -- for the printed line, which names the regime and the size next to the usual one
        let _ ← RegimeDetector.Checked.detect s.regime
        let _ ← checkedDiv kellySize s.positionSize
        return ({ signal with
            orders := [marketOrder tick.symbol tick.ask size true]
            valid := true, reason, confidence := rsi / 100 },
          { s with inPosition := true, entryPrice := tick.price })
      | none => return (signal, s)
    else return (signal, s)

/-- `generate_signal`, with the breaker that is asked. -/
def generateSignal (s : EnhancedIntradayStrategy) (breaker : CircuitBreaker) (tick : Tick)
    (now : TimePoint) : Option ((Signal × EnhancedIntradayStrategy) × CircuitBreaker) := do
  let s ← recordTick s tick
  let (canTrade, breaker) ← CircuitBreaker.Checked.canTrade breaker now
  if !canTrade then return (({ symbol := tick.symbol }, s), breaker)
  else if s.priceHistory.length < 50 then return (({ symbol := tick.symbol }, s), breaker)
  else do
    let out ← sized s tick
    return (out, breaker)

variable (s : EnhancedIntradayStrategy)

theorem calculateEma_eq (prices : List ℚ) (period : Nat) :
    calculateEma prices period = some (TradingTerminal.calculateEma prices period) := by
  have hperiod : (period : ℚ) + 1 ≠ 0 := by exact_mod_cast period.succ_ne_zero
  unfold calculateEma TradingTerminal.calculateEma
  split
  · rfl
  · rw [checkedDiv_of_ne hperiod]
    rfl

theorem calculateRsi_eq (h : 0 < s.rsiPeriod) : calculateRsi s = some s.calculateRsi := by
  obtain ⟨hgain, hloss⟩ := gainsAndLosses_nonneg (lastN (s.rsiPeriod + 1) s.priceHistory)
  unfold calculateRsi EnhancedIntradayStrategy.calculateRsi
  split
  · rfl
  · dsimp only
    simp only [checkedDiv_natCast h, Option.bind_eq_bind, Option.bind_some]
    exact Checked.strengthOf_eq (div_nonneg hgain (Nat.cast_nonneg _))
      (div_nonneg hloss (Nat.cast_nonneg _))

theorem recordTick_eq (tick : Tick) : recordTick s tick = some (s.recordTick tick) := by
  rw [recordTick, RegimeDetector.Checked.addData_eq]
  rfl

theorem shouldExit_eq (h : 0 < s.rsiPeriod) (price : ℚ) :
    shouldExit s price = some (s.shouldExit price) := by
  unfold shouldExit EnhancedIntradayStrategy.shouldExit
  rw [calculateRsi_eq s h, Option.bind_eq_bind, Option.bind_some]
  by_cases hentry : s.entryPrice > 0
  · rw [if_pos hentry, if_pos hentry, checkedDiv_of_ne hentry.ne']
    rfl
  · rw [if_neg hentry, if_neg hentry]
    rfl

theorem entryReason_eq (h : 0 < s.rsiPeriod) (price : ℚ) :
    entryReason s price = some (s.entryReason price) := by
  simp only [entryReason, calculateEma_eq, calculateRsi_eq s h, Option.bind_eq_bind,
    Option.bind_some]
  rfl

/-- A sized order finds a gain among the returns that have a loss, and a BUY a size to compare
with. -/
def SizeDefined (tick : Tick) : Prop :=
  s.regime.getPositionMultiplier ≠ 0 → KellyPositionSizer.Checked.Defined s.kelly ∧
    (s.inPosition = false → s.pendingExit = false → s.entryReason tick.price ≠ none →
      s.positionSize ≠ 0)

instance (tick : Tick) : Decidable (SizeDefined s tick) :=
  inferInstanceAs (Decidable (_ → _ ∧ (_ → _ → _ → _)))

theorem sized_eq {s : EnhancedIntradayStrategy} {tick : Tick} (h : 0 < s.rsiPeriod)
    (hlong : 50 ≤ (s.recordTick tick).priceHistory.length) :
    DefinedWhere (SizeDefined (s.recordTick tick) tick) (sized (s.recordTick tick) tick)
      (s.generateSignal tick true) := by
  have hperiod : 0 < (s.recordTick tick).rsiPeriod := h
  unfold EnhancedIntradayStrategy.generateSignal
  generalize s.recordTick tick = s at hlong hperiod
  simp only [Bool.not_true, Bool.false_eq_true, if_false, if_neg (not_lt.2 hlong), sized,
    SizeDefined, calculateRsi_eq s hperiod, entryReason_eq s hperiod,
    RegimeDetector.Checked.getPositionMultiplier_eq, Option.bind_eq_bind, Option.bind_some]
  by_cases hcrash : s.regime.getPositionMultiplier = 0
  · rw [if_pos hcrash, if_pos hcrash]
    exact ⟨fun _ => rfl, fun h => absurd (fun hcalm => absurd hcrash hcalm) h⟩
  · rw [if_neg hcrash, if_neg hcrash]
    obtain ⟨hdefined, hundefined⟩ :=
      KellyPositionSizer.Checked.calculatePositionSize_eq s.kelly s.capital tick.price
    by_cases hkelly : KellyPositionSizer.Checked.Defined s.kelly
    · rw [hdefined hkelly, Option.bind_some]
      by_cases hheld : s.inPosition = true ∧ (!s.pendingExit) = true
      · have hfull : s.inPosition ≠ false := by simp [hheld.1]
        rw [if_pos hheld, if_pos hheld, shouldExit_eq s hperiod, Option.bind_some]
        refine ⟨fun _ => ?_, fun h => absurd (fun _ => ⟨hkelly, fun hflat => absurd hflat hfull⟩) h⟩
        split <;> rfl
      · rw [if_neg hheld, if_neg hheld]
        by_cases hflat : (!s.inPosition) = true ∧ (!s.pendingExit) = true
        · have hidle : s.inPosition = false ∧ s.pendingExit = false := by simpa using hflat
          rw [if_pos hflat, if_pos hflat]
          cases hreason : s.entryReason tick.price with
          | none =>
            exact ⟨fun _ => rfl, fun h => absurd (fun _ => ⟨hkelly, fun _ _ h => absurd rfl h⟩) h⟩
          | some reason =>
            simp only [RegimeDetector.Checked.detect_eq, Option.bind_some]
            by_cases hsize : s.positionSize = 0
            · refine ⟨fun h => ?_, fun _ => ?_⟩
              · exact absurd hsize ((h hcrash).2 hidle.1 hidle.2 (Option.some_ne_none reason))
              · rw [hsize]
                rfl
            · rw [checkedDiv_of_ne hsize]
              exact ⟨fun _ => rfl, fun h => absurd (fun _ => ⟨hkelly, fun _ _ _ => hsize⟩) h⟩
        · rw [if_neg hflat, if_neg hflat]
          refine ⟨fun _ => rfl, fun h => absurd (fun _ => ⟨hkelly, fun hempty hidle => ?_⟩) h⟩
          exact absurd (by simp [hempty, hidle]) hflat
    · rw [hundefined hkelly]
      exact ⟨fun h => absurd (h hcrash).1 hkelly, fun _ => rfl⟩

/-- No divisor of the tick is zero: the breaker's, and those of an order that is sized. -/
def Defined (breaker : CircuitBreaker) (tick : Tick) (now : TimePoint) : Prop :=
  CircuitBreaker.Checked.Defined breaker now ∧
    ((breaker.canTrade now).1 = true → 50 ≤ (s.recordTick tick).priceHistory.length →
      SizeDefined (s.recordTick tick) tick)

instance (breaker : CircuitBreaker) (tick : Tick) (now : TimePoint) :
    Decidable (Defined s breaker tick now) :=
  inferInstanceAs (Decidable (_ ∧ (_ → _ → _)))

variable {s}

theorem generateSignal_eq (h : 0 < s.rsiPeriod) (breaker : CircuitBreaker) (tick : Tick)
    (now : TimePoint) :
    DefinedWhere (Defined s breaker tick now) (generateSignal s breaker tick now)
      (s.generateSignal tick (breaker.canTrade now).1, (breaker.canTrade now).2) := by
  obtain ⟨hdefined, hundefined⟩ := CircuitBreaker.Checked.canTrade_eq breaker now
  unfold generateSignal Defined
  rw [recordTick_eq, Option.bind_eq_bind, Option.bind_some]
  by_cases hbreaker : CircuitBreaker.Checked.Defined breaker now
  · rw [hdefined hbreaker, Option.bind_eq_bind, Option.bind_some]
    generalize breaker.canTrade now = answer
    obtain ⟨canTrade, breaker'⟩ := answer
    dsimp only
    cases canTrade with
    | false =>
      refine ⟨fun _ => rfl, fun h => absurd ⟨hbreaker, fun hcan => ?_⟩ h⟩
      cases hcan
    | true =>
      by_cases hshort : (s.recordTick tick).priceHistory.length < 50
      · have hquiet :
            s.generateSignal tick true = ({ symbol := tick.symbol }, s.recordTick tick) := by
          unfold EnhancedIntradayStrategy.generateSignal
          simp only [Bool.not_true, Bool.false_eq_true, if_false, if_pos hshort]
        rw [if_pos hshort, hquiet]
        refine ⟨fun _ => rfl, fun h => absurd ⟨hbreaker, fun _ hlong => ?_⟩ h⟩
        exact absurd hshort (not_lt.2 hlong)
      · have hlong := not_lt.1 hshort
        obtain ⟨hsized, hunsized⟩ := sized_eq h hlong
        rw [if_neg hshort]
        constructor
        · intro hall
          rw [hsized (hall.2 rfl hlong)]
          rfl
        · intro hall
          rw [hunsized fun hsize => hall ⟨hbreaker, fun _ _ => hsize⟩]
          rfl
  · rw [hundefined hbreaker]
    exact ⟨fun h => absurd h.1 hbreaker, fun _ => rfl⟩

end EnhancedIntradayStrategy.Checked

end TradingTerminal
