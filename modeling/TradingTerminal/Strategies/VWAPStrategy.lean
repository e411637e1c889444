import TradingTerminal.Strategies.Strategy
import TradingTerminal.Strategies.OneSlot

/-!
# The VWAP strategy

`strategies/vwap_strategy.hpp`: one volume-weighted average and one pair of flags for all the symbols
it is fed.
-/

namespace TradingTerminal

structure VWAPData where
  cumulativePv : ℚ := 0
  cumulativeV : ℚ := 0
  vwap : ℚ := 0
  deriving DecidableEq, Repr

namespace VWAPData

def update (d : VWAPData) (price volume : ℚ) : VWAPData :=
  let d := if volume > 0 then
      { d with cumulativePv := d.cumulativePv + price * volume, cumulativeV := d.cumulativeV + volume }
    else d
  { d with vwap := if d.cumulativeV > 0 then d.cumulativePv / d.cumulativeV else 0 }

def reset (_ : VWAPData) : VWAPData := {}

end VWAPData

structure VWAPStrategy extends Strategy where
  vwapData : VWAPData := {}
  positionSize : ℚ := 100
  entryThreshold : ℚ := -2 / 1000
  exitThreshold : ℚ := 5 / 1000
  inPosition : Bool := false
  pendingExit : Bool := false

namespace VWAPStrategy

def new (size : ℚ) : VWAPStrategy := { positionSize := size }

/-- `price_vwap_ratio`: how far a price is from the average, over the average. -/
def priceVwapRatio (s : VWAPStrategy) (price : ℚ) : ℚ :=
  (price - s.vwapData.vwap) / s.vwapData.vwap

/-- The order of both branches: a limit order for the day. -/
def limitOrder (symbol : String) (price quantity : ℚ) (isBuy : Bool) : Order :=
  { symbol, price, quantity, isBuy, type := "limit", tif := "day" }

/-- The update at the head of `generate_signal`. -/
def recordTick (s : VWAPStrategy) (tick : Tick) : VWAPStrategy :=
  { s with vwapData := s.vwapData.update tick.price tick.volume }

def generateSignal (s : VWAPStrategy) (tick : Tick) : Signal × VWAPStrategy :=
  let signal : Signal := { symbol := tick.symbol }
  let s := s.recordTick tick
  if s.vwapData.vwap = 0 then (signal, s)
  else
    let ratio := s.priceVwapRatio tick.price
    if s.inPosition ∧ !s.pendingExit ∧ ratio > s.exitThreshold then
      ({ signal with
          orders := [limitOrder tick.symbol tick.bid s.positionSize false]
          valid := true, reason := "vwap_profit" },
        { s with pendingExit := true, pnl := s.pnl + ratio * s.positionSize * tick.price })
    else if !s.inPosition ∧ !s.pendingExit ∧ ratio < s.entryThreshold then
      ({ signal with
          orders := [limitOrder tick.symbol tick.ask s.positionSize true]
          valid := true, reason := "vwap_discount" },
        { s with inPosition := true })
    else (signal, s)

def onOrderFilled (s : VWAPStrategy) (order : Order) : VWAPStrategy :=
  let s := { s with toStrategy := s.toStrategy.bookFill order }
  if !order.isBuy then { s with inPosition := false, pendingExit := false } else s

def onOrderRejected (s : VWAPStrategy) (order : Order) : VWAPStrategy :=
  if order.isBuy then { s with inPosition := false } else { s with pendingExit := false }

def resetVwap (s : VWAPStrategy) : VWAPStrategy := { s with vwapData := s.vwapData.reset }

/-! ## The slot -/

/-- Whether the exit test fires on a tick, with the average that includes the tick. -/
def exitDue (s : VWAPStrategy) (tick : Tick) : Bool :=
  let s := s.recordTick tick
  s.vwapData.vwap ≠ 0 ∧ s.inPosition ∧ !s.pendingExit ∧ s.priceVwapRatio tick.price > s.exitThreshold

def trader : Trader VWAPStrategy Tick := { generateSignal, onOrderFilled }

theorem recordTick_flags (s : VWAPStrategy) (tick : Tick) :
    (s.recordTick tick).inPosition = s.inPosition ∧
      (s.recordTick tick).pendingExit = s.pendingExit ∧
      (s.recordTick tick).positionSize = s.positionSize :=
  ⟨rfl, rfl, rfl⟩

/-- A tick emits nothing, or the exit that is due, or an entry. -/
theorem generateSignal_cases (s : VWAPStrategy) (tick : Tick) :
    (s.exitDue tick = false ∧ (s.generateSignal tick).1.orders = [] ∧
      (s.generateSignal tick).2 = s.recordTick tick) ∨
    (s.exitDue tick = true ∧ s.inPosition = true ∧
      (s.generateSignal tick).1.orders = [limitOrder tick.symbol tick.bid s.positionSize false] ∧
      (s.generateSignal tick).2.positionSize = s.positionSize) ∨
    (s.exitDue tick = false ∧ s.inPosition = false ∧
      (s.generateSignal tick).1.orders = [limitOrder tick.symbol tick.ask s.positionSize true] ∧
      (s.generateSignal tick).2 = { s.recordTick tick with inPosition := true }) := by
  obtain ⟨hin, -, -⟩ := s.recordTick_flags tick
  unfold generateSignal exitDue
  dsimp only
  split
  · next hzero => exact Or.inl ⟨by simp [hzero], rfl, rfl⟩
  · next hzero =>
    split
    · next hexit => exact Or.inr (Or.inl ⟨by simp [hzero, hexit], hin ▸ hexit.1, rfl, rfl⟩)
    · next hexit =>
      have hundue : decide ((s.recordTick tick).vwapData.vwap ≠ 0 ∧
          (s.recordTick tick).inPosition = true ∧ (!(s.recordTick tick).pendingExit) = true ∧
          (s.recordTick tick).priceVwapRatio tick.price > (s.recordTick tick).exitThreshold) = false :=
        decide_eq_false fun h => hexit h.2
      split
      · next hentry =>
        refine Or.inr (Or.inr ⟨hundue, ?_, rfl, rfl⟩)
        rw [← hin]
        simpa using hentry.1
      · exact Or.inl ⟨hundue, rfl, rfl⟩

/-- What an answered tick does to the flags and to the size of the orders. -/
theorem answered (d : Desk VWAPStrategy) (tick : Tick) (hidle : d.strategy.pendingExit = false) :
    (d.step trader tick).strategy.pendingExit = false ∧
      (d.step trader tick).strategy.positionSize = d.strategy.positionSize ∧
      Answered tick.symbol (d.strategy.exitDue tick) d.strategy.positionSize d.strategy.inPosition
        (d.step trader tick).strategy.inPosition (d.strategy.generateSignal tick).1.orders := by
  obtain ⟨hin, hpending, hsize⟩ := d.strategy.recordTick_flags tick
  have hstrategy : (d.step trader tick).strategy = (d.strategy.generateSignal tick).1.orders.foldl
      onOrderFilled (d.strategy.generateSignal tick).2 := rfl
  rcases d.strategy.generateSignal_cases tick with
    ⟨hundue, horders, hs⟩ | ⟨hdue, hfull, horders, hs⟩ | ⟨hundue, hempty, horders, hs⟩
  · rw [hstrategy, horders, List.foldl_nil, hs]
    exact ⟨hpending.trans hidle, hsize, .quiet hundue hin⟩
  · rw [hstrategy, horders, List.foldl_cons, List.foldl_nil]
    exact ⟨rfl, hs, .exit hdue hfull rfl rfl rfl rfl⟩
  · rw [hstrategy, horders, List.foldl_cons, List.foldl_nil, hs]
    exact ⟨hpending.trans hidle, hsize, .entry hundue hempty rfl rfl rfl rfl⟩

/-- One flag and one average: the strategy has one slot, and its orders are of one size. -/
def oneSlot (size : ℚ) : OneSlot trader where
  symbol := Tick.symbol
  held := inPosition
  idle s := s.pendingExit = false ∧ s.positionSize = size
  exitDue := exitDue
  size s _ := s.positionSize
  idle_step d tick h := by
    obtain ⟨hidle, hsize, -⟩ := answered d tick h.1
    exact ⟨hidle, hsize.trans h.2⟩
  answered d tick h := (answered d tick h.1).2.2

end VWAPStrategy

end TradingTerminal
