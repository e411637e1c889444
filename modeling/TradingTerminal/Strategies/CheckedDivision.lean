import TradingTerminal.Lib.CheckedDiv
import TradingTerminal.Strategies.WeightedRuns
import TradingTerminal.Strategies.EnhancedIntraday

/-!
# Generating a signal with checked divisions

`generate_signal` of the three strategies, and what it calls, once more with every division by a
variable checked: a zero divisor stops the computation. Each equation says when this gives what the
unchecked function gives. Divisions by literals stay as they are.
-/

namespace TradingTerminal

open Lib

/-! ## Windows -/

namespace Checked

def meanOf (xs : List ℚ) : Option ℚ := checkedDiv xs.sum xs.length

def varianceOf (returns : List ℚ) : Option ℚ := do
  let mean ← meanOf returns
  checkedDiv (returns.map fun r => (r - mean) * (r - mean)).sum returns.length

/-- The relative strength from the mean gain and the mean loss. -/
def strengthOf (avgGain avgLoss : ℚ) : Option ℚ :=
  if avgLoss = 0 then some 100
  else do
    let rs ← checkedDiv avgGain avgLoss
    let rest ← checkedDiv 100 (1 + rs)
    return 100 - rest

def rsiOf (prices : List ℚ) : Option ℚ :=
  let (gain, loss) := gainsAndLosses (lastN 15 prices)
  strengthOf (gain / 14) (loss / 14)

/-- The price that the momentum is divided by: the twentieth latest of a window. -/
def oldPrice (prices : List ℚ) : ℚ := prices.getD (prices.length - 20) 0

def momentumOf (prices : List ℚ) : Option ℚ :=
  let newPrice := prices.getLastD 0
  checkedDiv (newPrice - oldPrice prices) (oldPrice prices)

/-- The mean of the newer half of the volumes over that of the older half. -/
def volumeRatioOf (volumes : List ℚ) : Option ℚ := do
  let half := volumes.length / 2
  let avgOld ← checkedDiv (volumes.take half).sum half
  let avgNew ← checkedDiv (volumes.drop half).sum (volumes.length - half : Nat)
  if avgOld > 0 then checkedDiv avgNew avgOld else return 1

/-- The price change of a position; none is computed where there is no position. -/
def priceChange (p : PositionState) (price : ℚ) : Option ℚ :=
  if p.inPosition then checkedDiv (price - p.entryPrice) p.entryPrice else some 0

theorem priceChange_eq {p : PositionState} (h : p.inPosition = true → p.entryPrice ≠ 0)
    (price : ℚ) : ∃ change, priceChange p price = some change := by
  unfold priceChange
  split
  · next hin => exact ⟨_, checkedDiv_of_ne (h hin) _⟩
  · exact ⟨_, rfl⟩

theorem priceChange_eq_none {p : PositionState} (h : ¬ (p.inPosition = true → p.entryPrice ≠ 0))
    (price : ℚ) : priceChange p price = none := by
  push Not at h
  rw [priceChange, if_pos h.1, h.2]
  exact checkedDiv_zero _

theorem meanOf_eq {xs : List ℚ} (h : 0 < xs.length) :
    meanOf xs = some (TradingTerminal.meanOf xs) :=
  checkedDiv_natCast h _

theorem varianceOf_eq {returns : List ℚ} (h : 0 < returns.length) :
    varianceOf returns = some (TradingTerminal.varianceOf returns) := by
  rw [varianceOf, meanOf_eq h, Option.bind_eq_bind, Option.bind_some]
  exact checkedDiv_natCast h _

/-- Where there is a loss, the strength is divided by more than one. -/
theorem strengthOf_eq {avgGain avgLoss : ℚ} (hgain : 0 ≤ avgGain) (hloss : 0 ≤ avgLoss) :
    strengthOf avgGain avgLoss =
      some (if avgLoss = 0 then 100 else 100 - 100 / (1 + avgGain / avgLoss)) := by
  unfold strengthOf
  split
  · rfl
  · next hne =>
    have hrs : 0 ≤ avgGain / avgLoss := div_nonneg hgain hloss
    have hone : 1 + avgGain / avgLoss ≠ 0 := by linarith
    simp only [checkedDiv_of_ne hne, checkedDiv_of_ne hone, Option.bind_eq_bind, Option.bind_some]
    rfl

theorem rsiOf_eq (prices : List ℚ) : rsiOf prices = some (TradingTerminal.rsiOf prices) := by
  obtain ⟨hgain, hloss⟩ := gainsAndLosses_nonneg (lastN 15 prices)
  exact strengthOf_eq (div_nonneg hgain (by norm_num)) (div_nonneg hloss (by norm_num))

theorem volumeRatioOf_eq {volumes : List ℚ} (h : 2 ≤ volumes.length) :
    volumeRatioOf volumes = some (WeightedStrategy.volumeRatioOf volumes) := by
  have hold : 0 < volumes.length / 2 := by omega
  have hnew : 0 < volumes.length - volumes.length / 2 := by omega
  unfold volumeRatioOf WeightedStrategy.volumeRatioOf
  simp only [checkedDiv_natCast hold, checkedDiv_natCast hnew, Option.bind_eq_bind,
    Option.bind_some]
  split
  · next hpos => exact checkedDiv_of_ne hpos.ne' _
  · rfl

end Checked

/-! ## The momentum strategy -/

namespace MomentumStrategy.Checked

def recordTick (data : SymbolData) (tick : Tick) : Option SymbolData := do
  let prices := data.prices ++ [tick.price]
  let volumes := data.volumes ++ [tick.volume]
  let excess := prices.length - 50
  let returns ←
    if data.prevPrice > 0 then do
      let change ← checkedDiv (tick.price - data.prevPrice) data.prevPrice
      pure (pushWindow 20 data.returns change)
    else pure data.returns
  return { data with
    prices := prices.drop excess
    volumes := volumes.drop excess
    returns
    prevPrice := tick.price }

def calculateSma (data : SymbolData) : Option SymbolData := do
  let sma50 ← Checked.meanOf data.prices
  return { data with sma20 := sma20Of data.prices, sma50 }

def calculateRsi (data : SymbolData) : Option SymbolData :=
  if data.prices.length < 15 then return data
  else do
    let rsi ← Checked.rsiOf data.prices
    return { data with rsi }

def calculateMomentum (data : SymbolData) : Option SymbolData :=
  if data.prices.length < 20 then return data
  else do
    let momentum ← Checked.momentumOf data.prices
    return { data with momentum }

def calculateVolatility (data : SymbolData) : Option SymbolData :=
  if data.returns.length < 2 then return data
  else do
    let variance ← Checked.varianceOf data.returns
    return { data with volatility := sqrt variance * sqrt (252 * 390) }

def calculate (data : SymbolData) : Option SymbolData := do
  let data ← calculateSma data
  let data ← calculateRsi data
  let data ← calculateMomentum data
  calculateVolatility data

/-- `generate_signal`; in `trade` the price change of a position is the only division. -/
def generateSignal (s : MomentumStrategy) (tick : Tick) (now : UInt64) :
    Option (Signal × MomentumStrategy) := do
  let data ← recordTick (s.symbolData tick.symbol) tick
  if data.prices.length < 50 then
    return ({ symbol := tick.symbol }, { s with data := s.data.insert tick.symbol data })
  else
    let data ← calculate data
    let _ ← Checked.priceChange data.toPositionState tick.price
    let out := trade s.positionSize s.trailingStopPct tick now (s.exitReason data tick now)
      (9 / 10) (s.entry data tick) data.toPositionState
    return (out.signal,
      { s with
        pnl := s.pnl + out.pnlChange
        data := s.data.insert tick.symbol { data with toPositionState := out.position } })

theorem recordTick_eq (data : SymbolData) (tick : Tick) :
    recordTick data tick = some (data.recordTick tick) := by
  unfold recordTick SymbolData.recordTick
  dsimp only
  split
  · next hpos => rw [checkedDiv_of_ne hpos.ne']; rfl
  · rfl

theorem calculate_eq {data : SymbolData} (h : 50 ≤ data.prices.length) :
    DefinedWhere (Checked.oldPrice data.prices ≠ 0) (calculate data) data.calculate := by
  have hsma : calculateSma data = some data.calculateSma := by
    rw [calculateSma, Checked.meanOf_eq (by omega)]
    rfl
  have hrsi (d : SymbolData) : calculateRsi d = some d.calculateRsi := by
    unfold calculateRsi SymbolData.calculateRsi
    rw [Checked.rsiOf_eq]
    split <;> rfl
  have hvolatility (d : SymbolData) : calculateVolatility d = some d.calculateVolatility := by
    unfold calculateVolatility SymbolData.calculateVolatility
    split
    · rfl
    · rw [Checked.varianceOf_eq (by omega)]
      rfl
  have hprices : data.calculateSma.calculateRsi.prices = data.prices := by
    unfold SymbolData.calculateRsi
    split <;> rfl
  have hlong : ¬ data.prices.length < 20 := by omega
  simp only [calculate, hsma, hrsi, calculateMomentum, if_neg hlong, hprices, Checked.momentumOf,
    checkedDiv, Option.bind_eq_bind, Option.bind_some]
  constructor
  · intro hold
    rw [if_pos hold, Option.bind_some, SymbolData.calculate, SymbolData.calculateMomentum, hprices,
      if_neg hlong]
    exact hvolatility _
  · intro hold
    rw [not_not.1 hold]
    rfl

/-- A scored tick finds the twentieth latest price non-zero, and the entry price of a position. -/
def Defined (s : MomentumStrategy) (tick : Tick) : Prop :=
  let data := (s.symbolData tick.symbol).recordTick tick
  50 ≤ data.prices.length → Checked.oldPrice data.prices ≠ 0 ∧
    (data.inPosition = true → data.entryPrice ≠ 0)

instance (s : MomentumStrategy) (tick : Tick) : Decidable (Defined s tick) :=
  inferInstanceAs (Decidable (_ → _ ∧ (_ → _)))

theorem generateSignal_eq (s : MomentumStrategy) (tick : Tick) (now : UInt64) :
    DefinedWhere (Defined s tick) (generateSignal s tick now) (s.generateSignal tick now) := by
  unfold generateSignal MomentumStrategy.generateSignal Defined
  rw [recordTick_eq, Option.bind_eq_bind, Option.bind_some]
  generalize (s.symbolData tick.symbol).recordTick tick = data
  dsimp only
  by_cases hshort : data.prices.length < 50
  · rw [if_pos hshort, if_pos hshort]
    exact ⟨fun _ => rfl, fun h => absurd (fun hlong => absurd hshort (not_lt.2 hlong)) h⟩
  · have hlong := not_lt.1 hshort
    have hposition := data.calculate_toPositionState
    obtain ⟨hdefined, hundefined⟩ := calculate_eq hlong
    rw [if_neg hshort, if_neg hshort]
    constructor
    · intro h
      obtain ⟨hold, hentry⟩ := h hlong
      obtain ⟨change, hchange⟩ := Checked.priceChange_eq hentry tick.price
      rw [hdefined hold, Option.bind_some, hposition, hchange]
      rfl
    · intro h
      by_cases hold : Checked.oldPrice data.prices = 0
      · rw [hundefined (not_not.2 hold)]
        rfl
      · have hentry : ¬ (data.inPosition = true → data.entryPrice ≠ 0) :=
          fun hentry => h fun _ => ⟨hold, hentry⟩
        rw [hdefined hold, Option.bind_some, hposition, Checked.priceChange_eq_none hentry]
        rfl

end MomentumStrategy.Checked

/-! ## The weighted strategy -/

namespace WeightedStrategy.Checked

def calculateSma (data : SignalData) : Option SignalData := do
  let data := if data.prices.length ≥ 20 then { data with sma20 := sma20Of data.prices } else data
  if data.prices.length ≥ 50 then do
    let sma50 ← Checked.meanOf data.prices
    return { data with sma50 }
  else return data

def calculateRsi (data : SignalData) : Option SignalData :=
  if data.prices.length < 15 then return data
  else do
    let rsi ← Checked.rsiOf data.prices
    return { data with rsi }

def calculateMomentum (data : SignalData) : Option SignalData :=
  if data.prices.length < 20 then return data
  else do
    let momentum ← Checked.momentumOf data.prices
    return { data with momentum }

def calculateVolumeRatio (data : SignalData) : Option SignalData :=
  if data.volumes.length < 20 then return data
  else do
    let volumeRatio ← Checked.volumeRatioOf data.volumes
    return { data with volumeRatio }

/-- The sums of `calculate_vwap` with the tick. -/
def accumulate (data : SignalData) (tick : Tick) : SignalData :=
  if tick.volume > 0 then
    { data with
      cumulativePv := data.cumulativePv + tick.price * tick.volume
      cumulativeV := data.cumulativeV + tick.volume }
  else data

def calculateVwap (data : SignalData) (tick : Tick) : Option SignalData :=
  let data := accumulate data tick
  if data.cumulativeV > 0 then do
    let vwap ← checkedDiv data.cumulativePv data.cumulativeV
    let vwapDistance ← checkedDiv (tick.price - vwap) vwap
    return { data with vwap, vwapDistance }
  else return data

def calculate (data : SignalData) (tick : Tick) : Option SignalData := do
  let data ← calculateSma data
  let data ← calculateRsi data
  let data ← calculateMomentum data
  let data ← calculateVolumeRatio data
  calculateVwap data tick

/-- `calculate_weighted_score`; the RSI score has the only division by a variable. -/
def calculateWeightedScore (s : WeightedStrategy) (data : SignalData) : Option (ℚ × SignalData) := do
  let _ ← if data.rsi < s.rsiLower then checkedDiv data.rsi s.rsiLower else pure 0
  return s.calculateWeightedScore data

def generateSignal (s : WeightedStrategy) (tick : Tick) (now : UInt64) :
    Option (Signal × WeightedStrategy) := do
  let data := (s.signalData tick.symbol).recordTick tick
  if data.prices.length < 30 then
    return ({ symbol := tick.symbol }, { s with data := s.data.insert tick.symbol data })
  else
    let data ← calculate data tick
    let (score, data) ← calculateWeightedScore s data
    let data := { data with weightedScore := score }
    let _ ← Checked.priceChange data.toPositionState tick.price
    let out := trade s.positionSize s.trailingStopPct tick now (s.exitReason score tick now) score
      (s.entry score data) data.toPositionState
    return (out.signal,
      { s with
        pnl := s.pnl + out.pnlChange
        data := s.data.insert tick.symbol { data with toPositionState := out.position } })

/-- With the tick the sums of a symbol have a turnover if they have a volume. -/
def Turnover (data : SignalData) (tick : Tick) : Prop :=
  0 < data.cumulativeV + tick.volume → data.cumulativePv + tick.price * tick.volume ≠ 0

instance (data : SignalData) (tick : Tick) : Decidable (Turnover data tick) :=
  inferInstanceAs (Decidable (_ → _))

theorem accumulate_eq (data : SignalData) {tick : Tick} (h : 0 ≤ tick.volume) :
    accumulate data tick =
      { data with
        cumulativePv := data.cumulativePv + tick.price * tick.volume
        cumulativeV := data.cumulativeV + tick.volume } := by
  unfold accumulate
  split
  · rfl
  · next hzero =>
    have hvolume : tick.volume = 0 := le_antisymm (not_lt.1 hzero) h
    rw [hvolume, mul_zero, add_zero, add_zero]

theorem calculateVwap_eq (data : SignalData) {tick : Tick} (h : 0 ≤ tick.volume) :
    DefinedWhere (Turnover data tick) (calculateVwap data tick) (data.calculateVwap tick) := by
  have hvwap : data.calculateVwap tick =
      if (accumulate data tick).cumulativeV > 0 then
        { accumulate data tick with
          vwap := (accumulate data tick).cumulativePv / (accumulate data tick).cumulativeV
          vwapDistance :=
            (tick.price - (accumulate data tick).cumulativePv / (accumulate data tick).cumulativeV) /
              ((accumulate data tick).cumulativePv / (accumulate data tick).cumulativeV) }
      else accumulate data tick := rfl
  rw [hvwap]
  unfold calculateVwap Turnover
  rw [accumulate_eq data h]
  dsimp only
  by_cases hv : data.cumulativeV + tick.volume > 0
  · rw [if_pos hv, if_pos hv, checkedDiv_of_ne hv.ne', Option.bind_eq_bind, Option.bind_some]
    constructor
    · intro hturnover
      rw [checkedDiv_of_ne (div_ne_zero (hturnover hv) hv.ne')]
      rfl
    · intro hnone
      push Not at hnone
      rw [hnone.2, zero_div]
      rfl
  · rw [if_neg hv, if_neg hv]
    exact ⟨fun _ => rfl, fun hnone => absurd (fun hpos => absurd hpos hv) hnone⟩

theorem calculate_eq {data : SignalData} {tick : Tick} (hprices : 20 ≤ data.prices.length)
    (hvolumes : 20 ≤ data.volumes.length) (hvolume : 0 ≤ tick.volume) :
    DefinedWhere (Checked.oldPrice data.prices ≠ 0 ∧ Turnover data tick) (calculate data tick)
      (data.calculate tick) := by
  have hsma : calculateSma data = some
      { data with
        sma20 := sma20Of data.prices
        sma50 := if data.prices.length ≥ 50 then TradingTerminal.meanOf data.prices
          else data.sma50 } := by
    unfold calculateSma
    rw [if_pos hprices]
    dsimp only
    split
    · rw [Checked.meanOf_eq (by omega)]
      rfl
    · rfl
  have hrsi : ¬ data.prices.length < 15 := by omega
  have hmomentum : ¬ data.prices.length < 20 := by omega
  have hratio : ¬ data.volumes.length < 20 := by omega
  rw [WeightedStrategy.calculate_eq tick hprices hvolumes]
  simp only [calculate, hsma, calculateRsi, calculateMomentum, calculateVolumeRatio, if_neg hrsi,
    if_neg hmomentum, Checked.rsiOf_eq, Option.pure_def, Option.bind_eq_bind, Option.bind_some]
  by_cases hold : Checked.oldPrice data.prices = 0
  · refine ⟨fun h => absurd hold h.1, fun _ => ?_⟩
    rw [Checked.momentumOf, hold]
    rfl
  · have hmomentumOf :
        Checked.momentumOf data.prices = some (TradingTerminal.momentumOf data.prices) :=
      checkedDiv_of_ne hold _
    have hratioOf := Checked.volumeRatioOf_eq (by omega : 2 ≤ data.volumes.length)
    simp only [hmomentumOf, Option.bind_some, if_neg hratio, hratioOf]
    exact ⟨fun h => (calculateVwap_eq _ hvolume).value h.2,
      fun h => (calculateVwap_eq _ hvolume).stops fun hturnover => h ⟨hold, hturnover⟩⟩

/-- A scored tick finds the twentieth latest price, the turnover of the session and the entry price
of a position non-zero. -/
def Defined (s : WeightedStrategy) (tick : Tick) : Prop :=
  let data := (s.signalData tick.symbol).recordTick tick
  30 ≤ data.prices.length → (Checked.oldPrice data.prices ≠ 0 ∧ Turnover data tick) ∧
    (data.inPosition = true → data.entryPrice ≠ 0)

instance (s : WeightedStrategy) (tick : Tick) : Decidable (Defined s tick) :=
  inferInstanceAs (Decidable (_ → _ ∧ (_ → _)))

theorem generateSignal_eq {s : WeightedStrategy} {tick : Tick} (now : UInt64)
    (hrsi : s.rsiLower ≠ 0) (hvolume : 0 ≤ tick.volume)
    (hwindows : ((s.signalData tick.symbol).recordTick tick).volumes.length =
      ((s.signalData tick.symbol).recordTick tick).prices.length) :
    DefinedWhere (Defined s tick) (generateSignal s tick now) (s.generateSignal tick now) := by
  unfold generateSignal WeightedStrategy.generateSignal Defined
  generalize (s.signalData tick.symbol).recordTick tick = data at hwindows
  dsimp only
  by_cases hshort : data.prices.length < 30
  · rw [if_pos hshort, if_pos hshort]
    exact ⟨fun _ => rfl, fun h => absurd (fun hlong => absurd hshort (not_lt.2 hlong)) h⟩
  · have hlong := not_lt.1 hshort
    have hscore (d : SignalData) :
        calculateWeightedScore s d = some (s.calculateWeightedScore d) := by
      unfold calculateWeightedScore
      split
      · rw [checkedDiv_of_ne hrsi]
        rfl
      · rfl
    have hposition : (s.calculateWeightedScore (data.calculate tick)).2.toPositionState =
        data.toPositionState := data.calculate_toPositionState tick
    have hprices : 20 ≤ data.prices.length := by omega
    have hvolumes : 20 ≤ data.volumes.length := by omega
    obtain ⟨hdefined, hundefined⟩ := calculate_eq hprices hvolumes hvolume
    rw [if_neg hshort, if_neg hshort]
    constructor
    · intro h
      obtain ⟨hcalculate, hentry⟩ := h hlong
      obtain ⟨change, hchange⟩ := Checked.priceChange_eq hentry tick.price
      rw [← hposition] at hchange
      simp only [hdefined hcalculate, hscore, Option.bind_eq_bind, Option.bind_some, hchange]
      rfl
    · intro h
      by_cases hcalculate : Checked.oldPrice data.prices ≠ 0 ∧ Turnover data tick
      · have hentry : ¬ (data.inPosition = true → data.entryPrice ≠ 0) :=
          fun hentry => h fun _ => ⟨hcalculate, hentry⟩
        simp only [hdefined hcalculate, hscore, Option.bind_eq_bind, Option.bind_some, hposition,
          Checked.priceChange_eq_none hentry, Option.bind_none]
      · rw [hundefined hcalculate]
        rfl

end WeightedStrategy.Checked

end TradingTerminal
