import TradingTerminal.Strategies.Strategy
import TradingTerminal.Strategies.Indicators
import TradingTerminal.Lib.UMap

/-!
# The weighted strategy

`strategies/weighted_strategy.hpp`: five component scores, their weighted sum with a bonus for
several confirmations, and `trade` with tests on the score.
-/

namespace TradingTerminal

open Lib

namespace WeightedStrategy

structure IndicatorWeights where
  momentumWeight : ℚ := 30 / 100
  rsiWeight : ℚ := 20 / 100
  volumeWeight : ℚ := 15 / 100
  vwapWeight : ℚ := 15 / 100
  smaWeight : ℚ := 20 / 100
  deriving DecidableEq, Repr

structure SignalData extends PositionState where
  prices : List ℚ := []
  volumes : List ℚ := []
  sma20 : ℚ := 0
  sma50 : ℚ := 0
  rsi : ℚ := 50
  momentum : ℚ := 0
  volumeRatio : ℚ := 1
  cumulativePv : ℚ := 0
  cumulativeV : ℚ := 0
  vwap : ℚ := 0
  vwapDistance : ℚ := 0
  weightedScore : ℚ := 0
  signalReason : String := ""
  deriving DecidableEq, Repr

end WeightedStrategy

structure WeightedStrategy extends Strategy where
  data : UMap String WeightedStrategy.SignalData := ∅
  weights : WeightedStrategy.IndicatorWeights := {}
  positionSize : ℚ := 100
  entryThreshold : ℚ := 6 / 10
  exitThreshold : ℚ := 3 / 10
  trailingStopPct : ℚ := 15 / 1000
  takeProfitPct : ℚ := 3 / 100
  maxHoldSeconds : ℚ := 180
  rsiUpper : ℚ := 70
  rsiLower : ℚ := 30

namespace WeightedStrategy

def new (positionSize entryThreshold exitThreshold : ℚ) : WeightedStrategy :=
  { positionSize, entryThreshold, exitThreshold }

/-- `WeightedStrategy::set_weights`: the weights over their sum, unless that is not positive. -/
def setWeights (s : WeightedStrategy) (momentumW rsiW volumeW vwapW smaW : ℚ) : WeightedStrategy :=
  let total := momentumW + rsiW + volumeW + vwapW + smaW
  if total ≤ 0 then s
  else
    { s with
      weights :=
        { momentumWeight := momentumW / total
          rsiWeight := rsiW / total
          volumeWeight := volumeW / total
          vwapWeight := vwapW / total
          smaWeight := smaW / total } }

def signalData (s : WeightedStrategy) (symbol : String) : SignalData := UMap.getD s.data symbol {}

namespace SignalData

/-- The update of the price history at the head of `generate_signal`. -/
def recordTick (data : SignalData) (tick : Tick) : SignalData :=
  let prices := data.prices ++ [tick.price]
  let volumes := data.volumes ++ [tick.volume]
  let excess := prices.length - 50
  { data with prices := prices.drop excess, volumes := volumes.drop excess }

def calculateSma (data : SignalData) : SignalData :=
  let data := if data.prices.length ≥ 20 then { data with sma20 := sma20Of data.prices } else data
  if data.prices.length ≥ 50 then { data with sma50 := meanOf data.prices } else data

def calculateRsi (data : SignalData) : SignalData :=
  if data.prices.length < 15 then data else { data with rsi := rsiOf data.prices }

def calculateMomentum (data : SignalData) : SignalData :=
  if data.prices.length < 20 then data else { data with momentum := momentumOf data.prices }

/-- `calculate_volume_ratio`: the mean of the newer half over the mean of the older half. -/
def calculateVolumeRatio (data : SignalData) : SignalData :=
  if data.volumes.length < 20 then data
  else
    let half := data.volumes.length / 2
    let avgOld := (data.volumes.take half).sum / half
    let avgNew := (data.volumes.drop half).sum / (data.volumes.length - half : Nat)
    { data with volumeRatio := if avgOld > 0 then avgNew / avgOld else 1 }

def calculateVwap (data : SignalData) (tick : Tick) : SignalData :=
  let data :=
    if tick.volume > 0 then
      { data with
        cumulativePv := data.cumulativePv + tick.price * tick.volume
        cumulativeV := data.cumulativeV + tick.volume }
    else data
  if data.cumulativeV > 0 then
    let vwap := data.cumulativePv / data.cumulativeV
    { data with vwap, vwapDistance := (tick.price - vwap) / vwap }
  else data

def calculate (data : SignalData) (tick : Tick) : SignalData :=
  (data.calculateSma.calculateRsi.calculateMomentum.calculateVolumeRatio).calculateVwap tick

@[simp] theorem recordTick_toPositionState (data : SignalData) (tick : Tick) :
    (data.recordTick tick).toPositionState = data.toPositionState := by
  unfold recordTick
  rfl

@[simp] theorem calculate_toPositionState (data : SignalData) (tick : Tick) :
    (data.calculate tick).toPositionState = data.toPositionState := by
  have sma (d : SignalData) : d.calculateSma.toPositionState = d.toPositionState := by
    unfold calculateSma; dsimp only; split <;> split <;> rfl
  have rsi (d : SignalData) : d.calculateRsi.toPositionState = d.toPositionState := by
    unfold calculateRsi; split <;> rfl
  have momentum (d : SignalData) : d.calculateMomentum.toPositionState = d.toPositionState := by
    unfold calculateMomentum; split <;> rfl
  have volumeRatio (d : SignalData) :
      d.calculateVolumeRatio.toPositionState = d.toPositionState := by
    unfold calculateVolumeRatio; split <;> rfl
  have vwap (d : SignalData) : (d.calculateVwap tick).toPositionState = d.toPositionState := by
    unfold calculateVwap; dsimp only; split <;> split <;> rfl
  rw [calculate, vwap, volumeRatio, momentum, rsi, sma]

/-! ## The component scores -/

def momentumScore (data : SignalData) : ℚ :=
  if data.momentum > 1 / 100 then min 1 (data.momentum / (5 / 100))
  else if data.momentum < -1 / 100 then 0
  else 1 / 2 + data.momentum * 25

def smaScore (data : SignalData) : ℚ :=
  let last := data.prices.getLastD 0
  if last > data.sma20 ∧ data.sma20 > data.sma50 then 8 / 10
  else if last > data.sma20 then 6 / 10
  else if last > data.sma50 then 4 / 10
  else 2 / 10

def rsiScore (data : SignalData) (rsiLower rsiUpper : ℚ) : ℚ :=
  if data.rsi < rsiLower then 1 - data.rsi / rsiLower
  else if data.rsi > rsiUpper then 0
  else 1 / 2

def volumeScore (data : SignalData) : ℚ := max 0 (min 1 ((data.volumeRatio - 1) / 2))

def vwapScore (data : SignalData) : ℚ :=
  if data.vwapDistance < -5 / 1000 then 8 / 10
  else if data.vwapDistance < 0 then 6 / 10
  else if data.vwapDistance > 5 / 1000 then 2 / 10
  else 4 / 10

end SignalData

/-- The texts of the component scores that count as a confirmation, in the order of the checks. -/
def activeSignals (s : WeightedStrategy) (data : SignalData) : List String :=
  (if data.momentumScore > 6 / 10 then ["momentum"] else [])
    ++ (if data.smaScore > 6 / 10 then ["sma_cross"] else [])
    ++ (if data.rsiScore s.rsiLower s.rsiUpper > 6 / 10 then ["rsi_oversold"] else [])
    ++ (if data.volumeScore > 1 / 2 then ["high_volume"] else [])
    ++ (if data.vwapScore > 6 / 10 then ["below_vwap"] else [])

def weightedSum (s : WeightedStrategy) (data : SignalData) : ℚ :=
  data.momentumScore * s.weights.momentumWeight
    + data.rsiScore s.rsiLower s.rsiUpper * s.weights.rsiWeight
    + data.volumeScore * s.weights.volumeWeight
    + data.vwapScore * s.weights.vwapWeight
    + data.smaScore * s.weights.smaWeight

/-- `calculate_weighted_score`: the score, and the data with its reason string. -/
def calculateWeightedScore (s : WeightedStrategy) (data : SignalData) : ℚ × SignalData :=
  let active := s.activeSignals data
  let score := s.weightedSum data
  let score := if active.length ≥ 3 then min 1 (score * (12 / 10)) else score
  let signalReason := if active.isEmpty then "no_signal" else "+".intercalate (active.take 3)
  (score, { data with signalReason })

def exitReason (s : WeightedStrategy) (score : ℚ) (tick : Tick) (now : UInt64)
    (p : PositionState) : Option String :=
  let holdTime := p.holdTime (clockSeconds now)
  let priceChange := p.priceChange tick.price
  if score < s.exitThreshold then some "weight_score_low"
  else if priceChange ≥ s.takeProfitPct then some "take_profit"
  else if tick.price ≤ p.trailingStop then some "trailing_stop"
  else if holdTime > s.maxHoldSeconds then some "max_hold"
  else none

/-- The entry test of `generate_signal`: the reason and the confidence. -/
def entry (s : WeightedStrategy) (score : ℚ) (data : SignalData) : Option (String × ℚ) :=
  if score ≥ s.entryThreshold then some (data.signalReason, score) else none

def scored (s : WeightedStrategy) (data : SignalData) (tick : Tick) : ℚ × SignalData :=
  let (score, data) := s.calculateWeightedScore (data.calculate tick)
  (score, { data with weightedScore := score })

@[simp] theorem scored_toPositionState (s : WeightedStrategy) (data : SignalData) (tick : Tick) :
    (s.scored data tick).2.toPositionState = data.toPositionState := by
  unfold scored calculateWeightedScore
  exact data.calculate_toPositionState tick

def generateSignal (s : WeightedStrategy) (tick : Tick) (now : UInt64) :
    Signal × WeightedStrategy :=
  let data := (s.signalData tick.symbol).recordTick tick
  if data.prices.length < 30 then
    ({ symbol := tick.symbol }, { s with data := s.data.insert tick.symbol data })
  else
    let (score, data) := s.scored data tick
    let out := trade s.positionSize s.trailingStopPct tick now (s.exitReason score tick now) score
      (s.entry score data) data.toPositionState
    (out.signal,
      { s with
        pnl := s.pnl + out.pnlChange
        data := s.data.insert tick.symbol { data with toPositionState := out.position } })

def onOrderFilled (s : WeightedStrategy) (order : Order) : WeightedStrategy :=
  let s := { s with toStrategy := s.toStrategy.bookFill order }
  if !order.isBuy then
    let data := s.signalData order.symbol
    { s with
      data := s.data.insert order.symbol
        { data with toPositionState := data.toPositionState.filled order.isBuy } }
  else s

def onOrderRejected (s : WeightedStrategy) (order : Order) : WeightedStrategy :=
  let data := s.signalData order.symbol
  { s with
    data := s.data.insert order.symbol
      { data with toPositionState := data.toPositionState.rejected order.isBuy } }

def resetVwap (s : WeightedStrategy) (symbol : String) : WeightedStrategy :=
  match s.data.lookup symbol with
  | some data =>
    { s with data := s.data.insert symbol { data with cumulativePv := 0, cumulativeV := 0, vwap := 0 } }
  | none => s

/-! ## The position fields -/

def position (s : WeightedStrategy) (symbol : String) : PositionState :=
  (s.signalData symbol).toPositionState

/-- Whether the exit test fires on a tick for a position held: enough prices are known and there is
an exit reason, with the score that includes the tick. -/
def exitDue (s : WeightedStrategy) (tick : Tick) (now : UInt64) : Bool :=
  let data := (s.signalData tick.symbol).recordTick tick
  30 ≤ data.prices.length &&
    (s.exitReason (s.scored data tick).1 tick now
      (data.toPositionState.raiseStop s.trailingStopPct tick.price)).isSome

theorem generateSignal_positions (s : WeightedStrategy) (tick : Tick) (now : UInt64) :
    OnlyAt tick.symbol
      (fun p p' => Emits s.positionSize tick.symbol (s.exitDue tick now) p p'
        (s.generateSignal tick now).1)
      s.position (s.generateSignal tick now).2.position := by
  unfold generateSignal exitDue
  dsimp only
  split
  · next hshort =>
    apply onlyAt_insert SignalData.toPositionState
    refine .quiet rfl rfl ?_ ?_ (by simp [Nat.not_le.2 hshort])
    · rw [SignalData.recordTick_toPositionState, signalData]
    · rw [SignalData.recordTick_toPositionState, signalData]
  · next hlong =>
    apply onlyAt_insert SignalData.toPositionState
    have h := trade_emits s.positionSize s.trailingStopPct tick now
      (s.exitReason (s.scored ((s.signalData tick.symbol).recordTick tick) tick).1 tick now)
      (s.scored ((s.signalData tick.symbol).recordTick tick) tick).1
      (s.entry (s.scored ((s.signalData tick.symbol).recordTick tick) tick).1
        (s.scored ((s.signalData tick.symbol).recordTick tick) tick).2)
      (s.position tick.symbol)
    rw [decide_eq_true (Nat.not_lt.1 hlong), Bool.true_and]
    simpa [position, signalData] using h

theorem onOrderFilled_positions (s : WeightedStrategy) (order : Order) :
    OnlyAt order.symbol (fun p p' => p' = p.filled order.isBuy) s.position
      (s.onOrderFilled order).position := by
  unfold onOrderFilled
  cases hbuy : order.isBuy with
  | true => exact ⟨rfl, fun _ _ => rfl⟩
  | false => exact onlyAt_insert SignalData.toPositionState _ _ _ _ rfl

theorem onOrderRejected_positions (s : WeightedStrategy) (order : Order) :
    OnlyAt order.symbol (fun p p' => p' = p.rejected order.isBuy) s.position
      (s.onOrderRejected order).position :=
  onlyAt_insert SignalData.toPositionState _ _ _ _ rfl

end WeightedStrategy

end TradingTerminal
