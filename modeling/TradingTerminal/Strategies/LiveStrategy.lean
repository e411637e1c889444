import TradingTerminal.Strategies.MomentumStrategy
import TradingTerminal.Strategies.WeightedStrategy

/-!
# A live strategy

`main.cpp` holds its strategies behind the base class and builds them in `create_strategies`.
`LiveStrategy` is one of the two, its functions are the virtual calls. The lemmas below are all that
the results on orders use of a strategy: a tick touches the flags of its own symbol only, and those
as `Emits` says; a callback touches the flags of the order's symbol only.
-/

namespace TradingTerminal

open Lib

inductive LiveStrategy where
  | momentum (s : MomentumStrategy)
  | weighted (s : WeightedStrategy)

/-- What `create_strategies` reads from the configuration for a strategy. -/
inductive StrategyParams where
  | momentum (positionSize : ℚ := 10) (rsiUpper : ℚ := 70) (rsiLower : ℚ := 30)
  | weighted (positionSize : ℚ := 10) (entryThreshold : ℚ := 60 / 100)
      (exitThreshold : ℚ := 30 / 100) (momentumW : ℚ := 30 / 100) (rsiW : ℚ := 20 / 100)
      (volumeW : ℚ := 15 / 100) (vwapW : ℚ := 15 / 100) (smaW : ℚ := 20 / 100)

namespace LiveStrategy

/-- A strategy as `create_strategies` builds it. -/
def create : StrategyParams → LiveStrategy
  | .momentum positionSize rsiUpper rsiLower => .momentum (.new positionSize rsiUpper rsiLower)
  | .weighted positionSize entryThreshold exitThreshold momentumW rsiW volumeW vwapW smaW =>
    .weighted ((WeightedStrategy.new positionSize entryThreshold exitThreshold).setWeights
      momentumW rsiW volumeW vwapW smaW)

/-- `generate_signal`, with the reading of the system clock. -/
def generateSignal (s : LiveStrategy) (tick : Tick) (now : UInt64) : Signal × LiveStrategy :=
  match s with
  | .momentum s => let (signal, s) := s.generateSignal tick now; (signal, .momentum s)
  | .weighted s => let (signal, s) := s.generateSignal tick now; (signal, .weighted s)

def onOrderFilled (s : LiveStrategy) (order : Order) : LiveStrategy :=
  match s with
  | .momentum s => .momentum (s.onOrderFilled order)
  | .weighted s => .weighted (s.onOrderFilled order)

def onOrderRejected (s : LiveStrategy) (order : Order) : LiveStrategy :=
  match s with
  | .momentum s => .momentum (s.onOrderRejected order)
  | .weighted s => .weighted (s.onOrderRejected order)

def position (s : LiveStrategy) (symbol : String) : PositionState :=
  match s with
  | .momentum s => s.position symbol
  | .weighted s => s.position symbol

/-- The quantity of every order of the strategy. -/
def positionSize : LiveStrategy → ℚ
  | .momentum s => s.positionSize
  | .weighted s => s.positionSize

/-- Whether the exit test of `generate_signal` fires on a tick for a position held. -/
def exitDue (s : LiveStrategy) (tick : Tick) (now : UInt64) : Bool :=
  match s with
  | .momentum s => s.exitDue tick now
  | .weighted s => s.exitDue tick now

@[simp] theorem create_position (params : StrategyParams) (symbol : String) :
    (create params).position symbol = {} := by
  cases params with
  | momentum => rfl
  | weighted =>
    simp only [create, position, WeightedStrategy.setWeights]
    split <;> rfl

theorem generateSignal_positions (s : LiveStrategy) (tick : Tick) (now : UInt64) :
    OnlyAt tick.symbol
      (fun p p' => Emits s.positionSize tick.symbol (s.exitDue tick now) p p'
        (s.generateSignal tick now).1)
      s.position (s.generateSignal tick now).2.position := by
  cases s with
  | momentum s => exact s.generateSignal_positions tick now
  | weighted s => exact s.generateSignal_positions tick now

theorem onOrderFilled_positions (s : LiveStrategy) (order : Order) :
    OnlyAt order.symbol (fun p p' => p' = p.filled order.isBuy) s.position
      (s.onOrderFilled order).position := by
  cases s with
  | momentum s => exact s.onOrderFilled_positions order
  | weighted s => exact s.onOrderFilled_positions order

theorem onOrderRejected_positions (s : LiveStrategy) (order : Order) :
    OnlyAt order.symbol (fun p p' => p' = p.rejected order.isBuy) s.position
      (s.onOrderRejected order).position := by
  cases s with
  | momentum s => exact s.onOrderRejected_positions order
  | weighted s => exact s.onOrderRejected_positions order

/-! No event changes the size of the orders. -/

@[simp] theorem generateSignal_positionSize (s : LiveStrategy) (tick : Tick) (now : UInt64) :
    (s.generateSignal tick now).2.positionSize = s.positionSize := by
  cases s with
  | momentum s =>
    simp only [generateSignal, positionSize, MomentumStrategy.generateSignal]
    split <;> rfl
  | weighted s =>
    simp only [generateSignal, positionSize, WeightedStrategy.generateSignal]
    split <;> rfl

@[simp] theorem onOrderFilled_positionSize (s : LiveStrategy) (order : Order) :
    (s.onOrderFilled order).positionSize = s.positionSize := by
  cases s with
  | momentum s =>
    simp only [onOrderFilled, positionSize, MomentumStrategy.onOrderFilled]
    split <;> rfl
  | weighted s =>
    simp only [onOrderFilled, positionSize, WeightedStrategy.onOrderFilled]
    split <;> rfl

@[simp] theorem onOrderRejected_positionSize (s : LiveStrategy) (order : Order) :
    (s.onOrderRejected order).positionSize = s.positionSize := by
  cases s <;> rfl

end LiveStrategy

end TradingTerminal
