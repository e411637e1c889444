import TradingTerminal.Core.Types
import TradingTerminal.Lib.UMap
import TradingTerminal.Live.FifoLots

/-!
# The position manager

`live/positions.hpp`: the second ledger of the trading core. Each symbol's entry holds its own lots
and its own realised P&L, and is erased when the position is sold out.
-/

namespace TradingTerminal

open Lib

structure PositionDetail where
  quantity : ℚ := 0
  avgPrice : ℚ := 0
  realizedPnl : ℚ := 0
  lots : List Lot := []

structure PositionManager where
  positions : UMap String PositionDetail := ∅

namespace PositionManager

/-- `positions[symbol]`. -/
def detail (m : PositionManager) (symbol : String) : PositionDetail := UMap.getD m.positions symbol {}

/-- A positive `quantity` is bought, anything else is sold. -/
def addPosition (m : PositionManager) (symbol : String) (quantity price : ℚ) : PositionManager :=
  let pos := m.detail symbol
  if quantity > 0 then
    let totalCost := pos.avgPrice * pos.quantity + price * quantity
    let total := pos.quantity + quantity
    let pos := { pos with
      lots := pos.lots ++ [⟨price, quantity⟩]
      quantity := total
      avgPrice := if total > 0 then totalCost / total else 0 }
    { positions := m.positions.insert symbol pos }
  else
    let (lots, realizedPnl) := consumeLots price (-quantity) pos.lots pos.realizedPnl
    let pos := { pos with lots, realizedPnl, quantity := pos.quantity + quantity }
    if pos.quantity ≤ 0 then { positions := (m.positions.insert symbol pos).erase symbol }
    else
      let totalCost := lotsCost lots
      let totalQty := lotsQuantity lots
      let pos := { pos with avgPrice := if totalQty > 0 then totalCost / totalQty else 0 }
      { positions := m.positions.insert symbol pos }

def getPosition (m : PositionManager) (symbol : String) : ℚ :=
  match m.positions.lookup symbol with
  | some pos => pos.quantity
  | none => 0

def getAvgPrice (m : PositionManager) (symbol : String) : ℚ :=
  match m.positions.lookup symbol with
  | some pos => pos.avgPrice
  | none => 0

def getRealizedPnl (m : PositionManager) (symbol : String) : ℚ :=
  match m.positions.lookup symbol with
  | some pos => pos.realizedPnl
  | none => 0

def getUnrealizedPnl (m : PositionManager) (symbol : String) (currentPrice : ℚ) : ℚ :=
  match m.positions.lookup symbol with
  | none => 0
  | some pos => (currentPrice - pos.avgPrice) * pos.quantity

def getTotalRealizedPnl (m : PositionManager) : ℚ :=
  UMap.sumBy m.positions fun _ pos => pos.realizedPnl

def clear (_ : PositionManager) : PositionManager := {}

end PositionManager

end TradingTerminal
