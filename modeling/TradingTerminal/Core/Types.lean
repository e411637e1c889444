import Mathlib.Algebra.BigOperators.Group.List.Basic
import Mathlib.Algebra.Order.Ring.Rat

/-!
# Ticks, orders and signals

The records of `core/types.hpp` that the order path passes around. A `double` is an exact rational;
the string fields of an order keep the source's texts.
-/

namespace TradingTerminal

structure Tick where
  timestamp : UInt64 := 0
  symbol : String := ""
  price : ℚ := 0
  volume : ℚ := 0
  bid : ℚ := 0
  ask : ℚ := 0
  deriving DecidableEq, Repr

/-- An order on its way from a strategy to the exchange (`Order`). -/
structure Order where
  clientOrderId : String := ""
  symbol : String := ""
  price : ℚ := 0
  quantity : ℚ := 0
  isBuy : Bool := true
  type : String := "market"
  tif : String := "day"
  status : String := "new"
  alpacaId : String := ""
  deriving DecidableEq, Repr

/-- The quantity with its sign: bought shares count up, sold shares down. -/
def Order.signed (order : Order) : ℚ :=
  if order.isBuy then order.quantity else -order.quantity

theorem Order.signed_of_buy {order : Order} (h : order.isBuy = true) :
    order.signed = order.quantity :=
  if_pos h

theorem Order.signed_of_sell {order : Order} (h : order.isBuy = false) :
    order.signed = -order.quantity :=
  if_neg (by simp [h])

/-- The net quantity of a symbol over a list of orders: bought minus sold. -/
def netQuantity (orders : List Order) (symbol : String) : ℚ :=
  ((orders.filter (·.symbol = symbol)).map Order.signed).sum

@[simp] theorem netQuantity_nil (symbol : String) : netQuantity [] symbol = 0 := rfl

theorem netQuantity_concat (orders : List Order) (order : Order) (symbol : String) :
    netQuantity (orders ++ [order]) symbol =
      netQuantity orders symbol + if symbol = order.symbol then order.signed else 0 := by
  unfold netQuantity
  by_cases h : order.symbol = symbol
  · simp [h]
  · simp [h, Ne.symm h]

structure Signal where
  symbol : String := ""
  orders : List Order := []
  confidence : ℚ := 0
  reason : String := ""
  valid : Bool := false
  deriving DecidableEq, Repr

end TradingTerminal
