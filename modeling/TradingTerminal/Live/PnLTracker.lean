import TradingTerminal.Core.Types
import TradingTerminal.Lib.UMap
import TradingTerminal.Live.FifoLots

/-!
# The P&L tracker

`live/pnl_tracker.hpp`: per symbol the quantity, an average price and the queue of lots bought, and
over all symbols the realised P&L and the fees. A map of current prices is an argument of the
unrealised and the total P&L; a symbol without a price is left out.
-/

namespace TradingTerminal

open Lib

structure PositionTracker where
  quantity : ℚ := 0
  avgPrice : ℚ := 0
  tradeHistory : List Lot := []

structure PnLTracker where
  positions : UMap String PositionTracker := ∅
  totalRealizedPnl : ℚ := 0
  totalFees : ℚ := 0

namespace PnLTracker

/-- `positions[symbol]`. -/
def tracked (t : PnLTracker) (symbol : String) : PositionTracker := UMap.getD t.positions symbol {}

def recordTrade (t : PnLTracker) (order : Order) (fillPrice : ℚ) (fee : ℚ := 0) : PnLTracker :=
  let pos := t.tracked order.symbol
  let (pos, realizedPnl) :=
    if order.isBuy then
      let totalCost := pos.avgPrice * pos.quantity + fillPrice * order.quantity
      let quantity := pos.quantity + order.quantity
      ({ quantity
         avgPrice := if quantity > 0 then totalCost / quantity else 0
         tradeHistory := pos.tradeHistory ++ [⟨fillPrice, order.quantity⟩] }, 0)
    else
      let (lots, realizedPnl) := consumeLots fillPrice order.quantity pos.tradeHistory 0
      ({ pos with quantity := pos.quantity - order.quantity, tradeHistory := lots }, realizedPnl)
  let positions := t.positions.insert order.symbol pos
  { positions := if pos.quantity ≤ 0 then positions.erase order.symbol else positions
    totalRealizedPnl := t.totalRealizedPnl + realizedPnl
    totalFees := t.totalFees + fee }

def getUnrealizedPnl (t : PnLTracker) (symbol : String) (currentPrice : ℚ) : ℚ :=
  match t.positions.lookup symbol with
  | none => 0
  | some pos => (currentPrice - pos.avgPrice) * pos.quantity

def getTotalUnrealizedPnl (t : PnLTracker) (currentPrices : UMap String ℚ) : ℚ :=
  UMap.sumBy t.positions fun symbol pos =>
    match currentPrices.lookup symbol with
    | some price => (price - pos.avgPrice) * pos.quantity
    | none => 0

def getTotalPnl (t : PnLTracker) (currentPrices : UMap String ℚ) : ℚ :=
  t.totalRealizedPnl + t.getTotalUnrealizedPnl currentPrices

def reset (_ : PnLTracker) : PnLTracker := {}

end PnLTracker

end TradingTerminal
