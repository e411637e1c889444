import TradingTerminal.Strategies.Strategy
import TradingTerminal.Strategies.Indicators
import TradingTerminal.Lib.UMap

/-!
# The momentum strategy

`strategies/momentum_strategy.hpp`: a price window per symbol, four indicators on it, and `trade`
with the strategy's own exit and entry tests. The clock is an argument of `generateSignal`.
-/

namespace TradingTerminal

open Lib

namespace MomentumStrategy

structure SymbolData extends PositionState where
  prices : List ℚ := []
  volumes : List ℚ := []
  returns : List ℚ := []
  prevPrice : ℚ := 0
  sma20 : ℚ := 0
  sma50 : ℚ := 0
  rsi : ℚ := 50
  momentum : ℚ := 0
  volatility : ℚ := 0
  deriving DecidableEq, Repr

end MomentumStrategy

structure MomentumStrategy extends Strategy where
  data : UMap String MomentumStrategy.SymbolData := ∅
  positionSize : ℚ := 100
  rsiUpper : ℚ := 70
  rsiLower : ℚ := 30
  trailingStopPct : ℚ := 2 / 100
  takeProfitPct : ℚ := 5 / 100
  maxHoldSeconds : ℚ := 300

namespace MomentumStrategy

def new (positionSize rsiUpper rsiLower : ℚ) : MomentumStrategy :=
  { positionSize, rsiUpper, rsiLower }

def symbolData (s : MomentumStrategy) (symbol : String) : SymbolData := UMap.getD s.data symbol {}

namespace SymbolData

/-- The update of the price history at the head of `generate_signal`. -/
def recordTick (data : SymbolData) (tick : Tick) : SymbolData :=
  let prices := data.prices ++ [tick.price]
  let volumes := data.volumes ++ [tick.volume]
  let excess := prices.length - 50
  { data with
    prices := prices.drop excess
    volumes := volumes.drop excess
    returns :=
      if data.prevPrice > 0 then
        pushWindow 20 data.returns ((tick.price - data.prevPrice) / data.prevPrice)
      else data.returns
    prevPrice := tick.price }

def calculateSma (data : SymbolData) : SymbolData :=
  { data with sma20 := sma20Of data.prices, sma50 := meanOf data.prices }

def calculateRsi (data : SymbolData) : SymbolData :=
  if data.prices.length < 15 then data else { data with rsi := rsiOf data.prices }

def calculateMomentum (data : SymbolData) : SymbolData :=
  if data.prices.length < 20 then data else { data with momentum := momentumOf data.prices }

/-- `calculate_volatility`, annualised. -/
def calculateVolatility (data : SymbolData) : SymbolData :=
  if data.returns.length < 2 then data
  else { data with volatility := sqrt (varianceOf data.returns) * sqrt (252 * 390) }

def calculate (data : SymbolData) : SymbolData :=
  data.calculateSma.calculateRsi.calculateMomentum.calculateVolatility

@[simp] theorem recordTick_toPositionState (data : SymbolData) (tick : Tick) :
    (data.recordTick tick).toPositionState = data.toPositionState := by
  unfold recordTick
  rfl

@[simp] theorem calculate_toPositionState (data : SymbolData) :
    data.calculate.toPositionState = data.toPositionState := by
  have sma (d : SymbolData) : d.calculateSma.toPositionState = d.toPositionState := by
    unfold calculateSma; rfl
  have rsi (d : SymbolData) : d.calculateRsi.toPositionState = d.toPositionState := by
    unfold calculateRsi; split <;> rfl
  have momentum (d : SymbolData) : d.calculateMomentum.toPositionState = d.toPositionState := by
    unfold calculateMomentum; split <;> rfl
  have volatility (d : SymbolData) :
      d.calculateVolatility.toPositionState = d.toPositionState := by
    unfold calculateVolatility; split <;> rfl
  rw [calculate, volatility, momentum, rsi, sma]

end SymbolData

def exitReason (s : MomentumStrategy) (data : SymbolData) (tick : Tick) (now : UInt64)
    (p : PositionState) : Option String :=
  let holdTime := p.holdTime (clockSeconds now)
  let priceChange := p.priceChange tick.price
  if priceChange ≥ s.takeProfitPct then some "take_profit"
  else if tick.price ≤ p.trailingStop then some "trailing_stop"
  else if (priceChange > 0 ∧ data.rsi > 80) ∨ (priceChange < 0 ∧ data.rsi < 20) then
    some "rsi_reversal"
  else if holdTime > s.maxHoldSeconds then some "max_hold"
  else none

/-- The entry test of `generate_signal`: the reason and the confidence. -/
def entry (s : MomentumStrategy) (data : SymbolData) (tick : Tick) : Option (String × ℚ) :=
  if tick.price > data.sma20 ∧ data.sma20 > data.sma50 ∧ data.momentum > 1 / 100 then
    some ("golden_cross", 7 / 10)
  else if data.rsi < s.rsiLower ∧ data.momentum > 0 then some ("rsi_oversold", 6 / 10)
  else if data.momentum > 2 / 100 ∧ data.volatility > 5 / 1000 then
    some ("strong_momentum", 5 / 10)
  else none

def generateSignal (s : MomentumStrategy) (tick : Tick) (now : UInt64) :
    Signal × MomentumStrategy :=
  let data := (s.symbolData tick.symbol).recordTick tick
  if data.prices.length < 50 then
    ({ symbol := tick.symbol }, { s with data := s.data.insert tick.symbol data })
  else
    let data := data.calculate
    let out := trade s.positionSize s.trailingStopPct tick now (s.exitReason data tick now)
      (9 / 10) (s.entry data tick) data.toPositionState
    (out.signal,
      { s with
        pnl := s.pnl + out.pnlChange
        data := s.data.insert tick.symbol { data with toPositionState := out.position } })

def onOrderFilled (s : MomentumStrategy) (order : Order) : MomentumStrategy :=
  let s := { s with toStrategy := s.toStrategy.bookFill order }
  if !order.isBuy then
    let data := s.symbolData order.symbol
    { s with
      data := s.data.insert order.symbol
        { data with toPositionState := data.toPositionState.filled order.isBuy } }
  else s

def onOrderRejected (s : MomentumStrategy) (order : Order) : MomentumStrategy :=
  let data := s.symbolData order.symbol
  { s with
    data := s.data.insert order.symbol
      { data with toPositionState := data.toPositionState.rejected order.isBuy } }

/-! ## The position fields -/

def position (s : MomentumStrategy) (symbol : String) : PositionState :=
  (s.symbolData symbol).toPositionState

/-- Whether the exit test fires on a tick for a position held: enough prices are known and there is
an exit reason, with the indicators that include the tick. -/
def exitDue (s : MomentumStrategy) (tick : Tick) (now : UInt64) : Bool :=
  let data := (s.symbolData tick.symbol).recordTick tick
  50 ≤ data.prices.length &&
    (s.exitReason data.calculate tick now
      (data.toPositionState.raiseStop s.trailingStopPct tick.price)).isSome

theorem generateSignal_positions (s : MomentumStrategy) (tick : Tick) (now : UInt64) :
    OnlyAt tick.symbol
      (fun p p' => Emits s.positionSize tick.symbol (s.exitDue tick now) p p'
        (s.generateSignal tick now).1)
      s.position (s.generateSignal tick now).2.position := by
  unfold generateSignal exitDue
  dsimp only
  split
  · next hshort =>
    apply onlyAt_insert SymbolData.toPositionState
    refine .quiet rfl rfl ?_ ?_ (by simp [Nat.not_le.2 hshort])
    · rw [SymbolData.recordTick_toPositionState, symbolData]
    · rw [SymbolData.recordTick_toPositionState, symbolData]
  · next hlong =>
    apply onlyAt_insert SymbolData.toPositionState
    have h := trade_emits s.positionSize s.trailingStopPct tick now
      (s.exitReason ((s.symbolData tick.symbol).recordTick tick).calculate tick now) (9 / 10)
      (s.entry ((s.symbolData tick.symbol).recordTick tick).calculate tick)
      (s.position tick.symbol)
    rw [decide_eq_true (Nat.not_lt.1 hlong), Bool.true_and]
    simpa [position, symbolData] using h

theorem onOrderFilled_positions (s : MomentumStrategy) (order : Order) :
    OnlyAt order.symbol (fun p p' => p' = p.filled order.isBuy) s.position
      (s.onOrderFilled order).position := by
  unfold onOrderFilled
  cases hbuy : order.isBuy with
  | true => exact ⟨rfl, fun _ _ => rfl⟩
  | false => exact onlyAt_insert SymbolData.toPositionState _ _ _ _ rfl

theorem onOrderRejected_positions (s : MomentumStrategy) (order : Order) :
    OnlyAt order.symbol (fun p p' => p' = p.rejected order.isBuy) s.position
      (s.onOrderRejected order).position :=
  onlyAt_insert SymbolData.toPositionState _ _ _ _ rfl

end MomentumStrategy

end TradingTerminal
