import TradingTerminal.Core.Types
import TradingTerminal.Lib.UMap

/-!
# What the live strategies share

`strategies/strategy.hpp` with its position list, and the part of `generate_signal` and of the two
callbacks that `MomentumStrategy` and `WeightedStrategy` have in common: per symbol the same six
position fields (`PositionState`), and the same exit and entry logic around them (`trade`), which
each strategy runs with its own exit test and entry test.

`Emits` says what `trade` can do to the flags of a symbol; what the strategies never do with orders
follows from it alone.
-/

namespace TradingTerminal

open Lib

structure Position where
  symbol : String
  quantity : ℚ := 0
  avgEntryPrice : ℚ := 0
  currentPrice : ℚ := 0
  unrealizedPl : ℚ := 0
  realizedPl : ℚ := 0
  marketValue : ℚ := 0
  deriving DecidableEq, Repr

/-- A fill of `quantity` at `price` on a listed position. -/
def Position.add (pos : Position) (quantity price : ℚ) : Position :=
  let totalQty := pos.quantity + quantity
  { pos with
    avgEntryPrice :=
      if totalQty ≠ 0 then (pos.avgEntryPrice * pos.quantity + price * quantity) / totalQty
      else pos.avgEntryPrice
    quantity := totalQty
    currentPrice := price }

/-- The loop of `update_position`: the first position of the symbol takes the fill. -/
def addToFirst (symbol : String) (quantity price : ℚ) : List Position → Option (List Position)
  | [] => none
  | pos :: rest =>
    if pos.symbol = symbol then some (pos.add quantity price :: rest)
    else (addToFirst symbol quantity price rest).map (pos :: ·)

structure Strategy where
  pnl : ℚ := 0
  positions : List Position := []
  deriving DecidableEq, Repr

namespace Strategy

def updatePosition (s : Strategy) (symbol : String) (quantity price : ℚ) : Strategy :=
  match addToFirst symbol quantity price s.positions with
  | some positions => { s with positions }
  | none =>
    if quantity ≠ 0 then
      let pos : Position := { symbol, quantity, avgEntryPrice := price, currentPrice := price }
      { s with positions := s.positions ++ [pos] }
    else { s with positions := s.positions.filter (·.symbol ≠ symbol) }

/-- The commission and the position update of `on_order_filled`. -/
def bookFill (s : Strategy) (order : Order) : Strategy :=
  let commission := order.price * order.quantity * (5 / 10000)
  { s with pnl := s.pnl - commission }.updatePosition order.symbol order.signed order.price

end Strategy

/-- The position fields of `MomentumStrategy::SymbolData` and `WeightedStrategy::SignalData`. -/
structure PositionState where
  inPosition : Bool := false
  pendingExit : Bool := false
  entryPrice : ℚ := 0
  entryTime : UInt64 := 0
  trailingStop : ℚ := 0
  highestPrice : ℚ := 0
  deriving DecidableEq, Repr

/-- A reading of the system clock, in nanoseconds, as the strategies round it to seconds. -/
def clockSeconds (now : UInt64) : UInt64 := now / 1000000000

namespace PositionState

/-- The seconds held, by unsigned subtraction of the entry time. -/
def holdTime (p : PositionState) (seconds : UInt64) : ℚ := (seconds - p.entryTime).toNat

/-- The change since the entry, relative to its price. At an entry price of zero the source's quotient
is infinite or no number, and this one is zero. -/
def priceChange (p : PositionState) (price : ℚ) : ℚ := (price - p.entryPrice) / p.entryPrice

/-- A new highest price pulls the trailing stop up. -/
def raiseStop (p : PositionState) (trailingStopPct price : ℚ) : PositionState :=
  if price > p.highestPrice then
    { p with highestPrice := price, trailingStop := price * (1 - trailingStopPct) }
  else p

/-- The fields set when a BUY is emitted. -/
def enter (p : PositionState) (trailingStopPct price : ℚ) (seconds : UInt64) : PositionState :=
  { p with
    inPosition := true
    entryPrice := price
    entryTime := seconds
    highestPrice := price
    trailingStop := price * (1 - trailingStopPct) }

/-- The flags after `on_order_filled`: a sold position is closed, a BUY changes nothing. -/
def filled (p : PositionState) (isBuy : Bool) : PositionState :=
  if !isBuy then { p with inPosition := false, pendingExit := false } else p

/-- The flags after `on_order_rejected`. -/
def rejected (p : PositionState) (isBuy : Bool) : PositionState :=
  if isBuy then { p with inPosition := false } else { p with pendingExit := false }

end PositionState

/-- The order of both strategies: a market order for the day at the quoted price. -/
def marketOrder (symbol : String) (price quantity : ℚ) (isBuy : Bool) : Order :=
  { symbol, price, quantity, isBuy, type := "market", tif := "day" }

/-- What a tick leaves behind: the position fields, the signal, and what is added to the P&L. -/
structure TradeOutcome where
  position : PositionState
  signal : Signal
  pnlChange : ℚ := 0
  deriving DecidableEq, Repr

/-- The exit and entry logic of `generate_signal`. `exitReason` is asked after the stop was raised;
it gives the reason and the confidence of the exit signal, `entry` those of the entry signal. -/
def trade (positionSize trailingStopPct : ℚ) (tick : Tick) (now : UInt64)
    (exitReason : PositionState → Option String) (exitConfidence : ℚ) (entry : Option (String × ℚ))
    (p : PositionState) : TradeOutcome :=
  let signal : Signal := { symbol := tick.symbol }
  if p.inPosition then
    let p := p.raiseStop trailingStopPct tick.price
    match exitReason p with
    | some reason =>
      if !p.pendingExit then
        { position := { p with pendingExit := true }
          signal := { signal with
            orders := [marketOrder tick.symbol tick.bid positionSize false]
            valid := true, reason, confidence := exitConfidence }
          pnlChange := (tick.price - p.entryPrice) * positionSize }
      else { position := p, signal }
    | none => { position := p, signal }
  else if !p.pendingExit then
    match entry with
    | some (reason, confidence) =>
      { position := p.enter trailingStopPct tick.price (clockSeconds now)
        signal := { signal with
          orders := [marketOrder tick.symbol tick.ask positionSize true]
          valid := true, reason, confidence } }
    | none => { position := p, signal }
  else { position := p, signal }

/-! ## What a tick does to the flags -/

/-- The order a strategy of size `size` emits for `symbol` on one side. -/
structure Sized (size : ℚ) (symbol : String) (isBuy : Bool) (order : Order) : Prop where
  symbol : order.symbol = symbol
  quantity : order.quantity = size
  isBuy : order.isBuy = isBuy

theorem marketOrder_sized (symbol : String) (price quantity : ℚ) (isBuy : Bool) :
    Sized quantity symbol isBuy (marketOrder symbol price quantity isBuy) :=
  ⟨rfl, rfl, rfl⟩

/-- How a tick takes the position fields `p` of its symbol to `p'` with a signal; `due` says that
the exit test fires. Nothing is emitted, or one SELL out of a position whose exit is due, or one BUY
from flat. -/
inductive Emits (size : ℚ) (symbol : String) (due : Bool) (p p' : PositionState) :
    Signal → Prop
  | quiet {signal : Signal} (orders : signal.orders = []) (valid : signal.valid = false)
      (inPosition : p'.inPosition = p.inPosition) (pendingExit : p'.pendingExit = p.pendingExit)
      (undue : p.inPosition = true → p.pendingExit = false → due = false) :
      Emits size symbol due p p' signal
  | exit {signal : Signal} {order : Order} (orders : signal.orders = [order])
      (valid : signal.valid = true) (sized : Sized size symbol false order)
      (held : p.inPosition = true) (idle : p.pendingExit = false) (fires : due = true)
      (inPosition : p'.inPosition = true) (pendingExit : p'.pendingExit = true) :
      Emits size symbol due p p' signal
  | entry {signal : Signal} {order : Order} (orders : signal.orders = [order])
      (valid : signal.valid = true) (sized : Sized size symbol true order)
      (flat : p.inPosition = false) (idle : p.pendingExit = false)
      (inPosition : p'.inPosition = true) (pendingExit : p'.pendingExit = false) :
      Emits size symbol due p p' signal

@[simp] theorem PositionState.raiseStop_inPosition (p : PositionState) (pct price : ℚ) :
    (p.raiseStop pct price).inPosition = p.inPosition := by
  unfold raiseStop; split <;> rfl

@[simp] theorem PositionState.raiseStop_pendingExit (p : PositionState) (pct price : ℚ) :
    (p.raiseStop pct price).pendingExit = p.pendingExit := by
  unfold raiseStop; split <;> rfl

@[simp] theorem PositionState.raiseStop_entryPrice (p : PositionState) (pct price : ℚ) :
    (p.raiseStop pct price).entryPrice = p.entryPrice := by
  unfold raiseStop; split <;> rfl

theorem trade_emits (size pct : ℚ) (tick : Tick) (now : UInt64)
    (exitReason : PositionState → Option String) (exitConfidence : ℚ) (entry : Option (String × ℚ))
    (p : PositionState) :
    Emits size tick.symbol (exitReason (p.raiseStop pct tick.price)).isSome p
      (trade size pct tick now exitReason exitConfidence entry p).position
      (trade size pct tick now exitReason exitConfidence entry p).signal := by
  unfold trade
  cases hin : p.inPosition with
  | true =>
    cases hreason : exitReason (p.raiseStop pct tick.price) with
    | none =>
      exact .quiet (by simp [hreason]) (by simp [hreason]) (by simp [hreason])
        (by simp [hreason]) (by simp)
    | some reason =>
      cases hpend : p.pendingExit with
      | true =>
        exact .quiet (by simp [hreason, hpend]) (by simp [hreason, hpend])
          (by simp [hreason, hpend]) (by simp [hreason, hpend]) (by simp [hpend])
      | false =>
        exact .exit (by simp [hreason, hpend]; rfl) (by simp [hreason, hpend])
          (marketOrder_sized ..) hin hpend rfl (by simp [hreason, hpend, hin])
          (by simp [hreason, hpend])
  | false =>
    cases hpend : p.pendingExit with
    | true => exact .quiet (by simp) (by simp) (by simp) (by simp) (by simp [hin])
    | false =>
      cases hentry : entry with
      | none => exact .quiet (by simp) (by simp) (by simp) (by simp) (by simp [hin])
      | some e =>
        exact .entry (by simp; rfl) (by simp) (marketOrder_sized ..) hin hpend
          (by simp [PositionState.enter]) (by simp [PositionState.enter, hpend])

/-- What a tick or a callback does to the position fields of all symbols: those of `symbol` change
as `change` says, the others stay. -/
structure OnlyAt (symbol : String) (change : PositionState → PositionState → Prop)
    (before after : String → PositionState) : Prop where
  here : change (before symbol) (after symbol)
  others : ∀ x, x ≠ symbol → after x = before x

theorem onlyAt_insert {β : Type*} {change : PositionState → PositionState → Prop}
    (fields : β → PositionState) (data : UMap String β) (symbol : String) (entry default : β)
    (h : change (fields (UMap.getD data symbol default)) (fields entry)) :
    OnlyAt symbol change (fun x => fields (UMap.getD data x default))
      (fun x => fields (UMap.getD (data.insert symbol entry) x default)) := by
  constructor
  · rw [UMap.getD_insert_self]
    exact h
  · intro x hx
    rw [UMap.getD_insert_ne _ hx]

end TradingTerminal
