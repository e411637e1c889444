import TradingTerminal.Core.ConfigValues
import TradingTerminal.Live.LossGate
import TradingTerminal.Live.Terminal

/-!
# Start-up

What `main.cpp` builds from a configuration: the strategies of `create_strategies`, a default
`RiskManager`, and a `CircuitBreaker` that is given the initial capital and nothing else. Without
strategies `main` returns at once, and then no input does anything. `checkedStep` is the step of the
terminal with the decisions of the risk manager in the place of arbitrary ones
(`checkedStep_manager`).
-/

namespace TradingTerminal

open Lib

/-- `create_strategies`: what it reads for the strategies it builds. -/
def createStrategies (c : Config) : List StrategyParams :=
  c.activeStrategies.filterMap fun name =>
    if name = "momentum".toList ∧ c.isStrategyEnabled "momentum".toList then
      let param (key : String) := c.getStrategyParam "momentum".toList key.toList
      some (.momentum (param "position_size" 10) (param "rsi_upper" 70) (param "rsi_lower" 30))
    else if name = "weighted".toList ∧ c.isStrategyEnabled "weighted".toList then
      let param (key : String) := c.getStrategyParam "weighted".toList key.toList
      let weight (key : String) := c.getStrategyParam "weighted.weights".toList key.toList
      some (.weighted (param "position_size" 10) (param "entry_threshold" 0.6)
        (param "exit_threshold" 0.3) (weight "momentum_weight" 0.3) (weight "rsi_weight" 0.2)
        (weight "volume_weight" 0.15) (weight "vwap_weight" 0.15) (weight "sma_weight" 0.2))
    else none

namespace Terminal

/-- The terminal that `main` builds from a configuration at an instant. -/
def main (c : Config) (now : TimePoint) : Terminal :=
  start (createStrategies c) {} (.new (c.getDouble "trading.initial_capital".toList 100000) now)

/-- The decision of the risk manager on the order that a turn emits, if it emits one. -/
def riskDecision (t : Terminal) (i : Nat) (turn : Turn) : Bool :=
  match t.strategies[i]? with
  | none => false
  | some strategy =>
    (strategy.generateSignal turn.tick turn.clock).1.orders.all fun order =>
      t.manager.risk.canSubmitOrder order (turn.balance 0) order.priceOrOne

/-- The step with the risk manager's own decision; the one in the input is not looked at. -/
def checkedStep (t : Terminal) : TerminalInput → Terminal
  | .turn i turn => t.step (.turn i { turn with approve := t.riskDecision i turn })
  | .process answer latency => t.step (.process answer latency)

end Terminal

/-- A strategy emits nothing, or a valid signal of one order. -/
theorem LiveStrategy.generateSignal_orders (s : LiveStrategy) (tick : Tick) (now : UInt64) :
    (s.generateSignal tick now).1.valid = false ∧ (s.generateSignal tick now).1.orders = [] ∨
      (s.generateSignal tick now).1.valid = true ∧
        ∃ order, (s.generateSignal tick now).1.orders = [order] := by
  cases (s.generateSignal_positions tick now).here with
  | quiet orders valid _ _ _ => exact Or.inl ⟨valid, orders⟩
  | exit orders valid _ _ _ _ _ _ => exact Or.inr ⟨valid, _, orders⟩
  | entry orders valid _ _ _ _ _ => exact Or.inr ⟨valid, _, orders⟩

namespace OrderManager

/-- A signal of one order depends on the decision on this order only. -/
theorem processSignal_single_congr {d d' : RiskDecision} {om : OrderManager} {signal : Signal}
    {order : Order} (horders : signal.orders = [order]) {balance : Nat → ℚ}
    (h : d om.risk order (balance 0) order.priceOrOne = d' om.risk order (balance 0) order.priceOrOne)
    (now : TimePoint) (timestamp : UInt64) :
    om.processSignal d signal now balance timestamp =
      om.processSignal d' signal now balance timestamp := by
  unfold processSignal submitOrders
  simp [horders, submitOrder, h]

end OrderManager

namespace Terminal

/-- The signal of a turn goes through `process_signal` with the risk manager's check. -/
theorem checkedStep_manager {t : Terminal} {i : Nat} {strategy : LiveStrategy}
    (hi : t.strategies[i]? = some strategy) (turn : Turn) :
    (t.checkedStep (.turn i turn)).manager =
      t.manager.processSignal RiskManager.canSubmitOrder
        (strategy.generateSignal turn.tick turn.clock).1 turn.now turn.balance turn.timestamp := by
  simp only [checkedStep, step, hi]
  rcases strategy.generateSignal_orders turn.tick turn.clock with ⟨hvalid, -⟩ | ⟨hvalid, order, horders⟩
  · simp [hvalid, OrderManager.processSignal]
  · simp only [hvalid, if_true]
    refine OrderManager.processSignal_single_congr horders ?_ turn.now turn.timestamp
    simp [riskDecision, hi, horders]

end Terminal

end TradingTerminal
