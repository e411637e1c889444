import TradingTerminal.Core.Types
import TradingTerminal.Lib.UMap
import TradingTerminal.Lib.Run
import Mathlib.Algebra.Order.Ring.Rat
import Mathlib.Tactic.Linarith

/-!
# The risk manager

`live/risk.hpp`: the limits, the books the manager keeps (quantity per symbol, total exposure, daily
P&L, trade counter), the check made before an order is queued (`canSubmitOrder`) and the booking of
an order the exchange took (`onOrderFilled`).

`canSubmitOrder_iff` reads the check as one conjunction, split into the part that looks at the order
and the cash (`Affordable`) and the part that looks at the books (`FitsBooks`).
-/

namespace TradingTerminal

open Lib

structure Limits where
  maxPositionSize : ℚ := 10000
  maxPortfolioExposure : ℚ := 50000
  maxDailyLoss : ℚ := 5000
  maxOrderSize : ℚ := 1000
  minBalance : ℚ := 1000
  maxDailyTrades : Int := 100
  deriving DecidableEq, Repr

/-- `RiskManager`. Freshly built, its books are empty. -/
structure RiskManager where
  limits : Limits := {}
  positions : UMap String ℚ := ∅
  totalExposure : ℚ := 0
  dailyRealizedPnl : ℚ := 0
  todayTrades : Int := 0

namespace RiskManager

/-- The recorded quantity of a symbol; an absent symbol counts as `0.0`. -/
def position (r : RiskManager) (symbol : String) : ℚ := UMap.getD r.positions symbol 0

def canSubmitOrder (r : RiskManager) (order : Order) (currentBalance currentPrice : ℚ) : Bool :=
  if currentPrice ≤ 0 then false
  else if r.todayTrades ≥ r.limits.maxDailyTrades then false
  else if r.dailyRealizedPnl < -r.limits.maxDailyLoss then false
  else
    let orderNotional := order.quantity * currentPrice
    if orderNotional > r.limits.maxOrderSize then false
    else if order.isBuy then
      if currentBalance - orderNotional < r.limits.minBalance then false
      else
        let currentQty := r.position order.symbol
        let newNotional := (currentQty + order.quantity) * currentPrice
        if newNotional > r.limits.maxPositionSize then false
        else if r.totalExposure + orderNotional > r.limits.maxPortfolioExposure then false
        else true
    else
      let currentQty := r.position order.symbol
      if currentQty < order.quantity then false else true

def onOrderFilled (r : RiskManager) (order : Order) (fillPrice : ℚ) : RiskManager :=
  let notional := order.quantity * fillPrice
  if order.isBuy then
    { r with
      positions := r.positions.insert order.symbol (r.position order.symbol + order.quantity)
      totalExposure := r.totalExposure + notional
      todayTrades := r.todayTrades + 1 }
  else
    let left := r.position order.symbol - order.quantity
    let positions := r.positions.insert order.symbol left
    { r with
      positions := if left ≤ 0 then positions.erase order.symbol else positions
      totalExposure := max 0 (r.totalExposure - notional)
      todayTrades := r.todayTrades + 1 }

def updateDailyPnl (r : RiskManager) (realizedPnl : ℚ) : RiskManager :=
  { r with dailyRealizedPnl := r.dailyRealizedPnl + realizedPnl }

def resetDaily (r : RiskManager) : RiskManager :=
  { r with dailyRealizedPnl := 0, todayTrades := 0 }

def setLimits (r : RiskManager) (newLimits : Limits) : RiskManager :=
  { r with limits := newLimits }

/-! ## The check as a conjunction -/

/-- The tests of the check that look only at the order, its price, the cash and the daily loss. -/
structure Affordable (l : Limits) (dailyPnl : ℚ) (order : Order) (balance price : ℚ) : Prop where
  price_pos : 0 < price
  loss : -l.maxDailyLoss ≤ dailyPnl
  size : order.quantity * price ≤ l.maxOrderSize
  cash : order.isBuy = true → l.minBalance ≤ balance - order.quantity * price

/-- The tests of the check that look at the books: the trade counter, and for a BUY the position and
exposure caps, for a SELL the short-sell guard. -/
structure FitsBooks (r : RiskManager) (order : Order) (price : ℚ) : Prop where
  trades : r.todayTrades < r.limits.maxDailyTrades
  symbolCap : order.isBuy = true →
    (r.position order.symbol + order.quantity) * price ≤ r.limits.maxPositionSize
  exposure : order.isBuy = true →
    r.totalExposure + order.quantity * price ≤ r.limits.maxPortfolioExposure
  held : order.isBuy = false → order.quantity ≤ r.position order.symbol

theorem canSubmitOrder_iff (r : RiskManager) (order : Order) (balance price : ℚ) :
    r.canSubmitOrder order balance price = true ↔
      Affordable r.limits r.dailyRealizedPnl order balance price ∧ r.FitsBooks order price := by
  constructor
  · intro h
    unfold canSubmitOrder at h
    cases hb : order.isBuy <;> simp only [hb] at h <;>
      simp only [Bool.if_false_left, Bool.and_eq_true, Bool.not_eq_true',
        decide_eq_false_iff_not, not_le, not_lt, ge_iff_le, gt_iff_lt, Bool.false_eq_true,
        ite_false, ite_true, and_true] at h
    · obtain ⟨h1, h2, h3, h4, h5⟩ := h
      exact ⟨⟨h1, h3, h4, by simp [hb]⟩, ⟨h2, by simp [hb], by simp [hb], fun _ => h5⟩⟩
    · obtain ⟨h1, h2, h3, h4, h5, h6, h7⟩ := h
      exact ⟨⟨h1, h3, h4, fun _ => h5⟩, ⟨h2, fun _ => h6, fun _ => h7, by simp [hb]⟩⟩
  · rintro ⟨ha, hf⟩
    unfold canSubmitOrder
    rw [if_neg (not_le.2 ha.price_pos), if_neg (not_le.2 hf.trades), if_neg (not_lt.2 ha.loss)]
    simp only [gt_iff_lt, if_neg (not_lt.2 ha.size)]
    cases hb : order.isBuy with
    | true =>
      simp only [ite_true, if_neg (not_lt.2 (ha.cash hb)), if_neg (not_lt.2 (hf.symbolCap hb)),
        if_neg (not_lt.2 (hf.exposure hb))]
    | false => simp only [Bool.false_eq_true, ite_false, if_neg (not_lt.2 (hf.held hb))]

/-! ## What booking changes -/

@[simp] theorem onOrderFilled_limits (r : RiskManager) (order : Order) (price : ℚ) :
    (r.onOrderFilled order price).limits = r.limits := by
  unfold onOrderFilled; split <;> rfl

@[simp] theorem onOrderFilled_dailyRealizedPnl (r : RiskManager) (order : Order) (price : ℚ) :
    (r.onOrderFilled order price).dailyRealizedPnl = r.dailyRealizedPnl := by
  unfold onOrderFilled; split <;> rfl

@[simp] theorem onOrderFilled_todayTrades (r : RiskManager) (order : Order) (price : ℚ) :
    (r.onOrderFilled order price).todayTrades = r.todayTrades + 1 := by
  unfold onOrderFilled; split <;> rfl

theorem onOrderFilled_totalExposure_buy (r : RiskManager) {order : Order} (price : ℚ)
    (hb : order.isBuy = true) :
    (r.onOrderFilled order price).totalExposure = r.totalExposure + order.quantity * price := by
  simp [onOrderFilled, hb]

theorem onOrderFilled_totalExposure_sell (r : RiskManager) {order : Order} (price : ℚ)
    (hb : order.isBuy = false) :
    (r.onOrderFilled order price).totalExposure =
      max 0 (r.totalExposure - order.quantity * price) := by
  simp [onOrderFilled, hb]

/-- Booking moves the recorded quantity of the order's symbol by the signed quantity; a SELL of more
than is recorded leaves the symbol absent. -/
theorem onOrderFilled_position (r : RiskManager) (order : Order) (price : ℚ) (symbol : String) :
    (r.onOrderFilled order price).position symbol =
      if symbol = order.symbol then
        if order.isBuy then r.position symbol + order.quantity
        else max 0 (r.position symbol - order.quantity)
      else r.position symbol := by
  unfold onOrderFilled position
  by_cases hs : symbol = order.symbol
  · subst hs
    cases hb : order.isBuy with
    | true => simp
    | false =>
      simp only [Bool.false_eq_true, ite_false, ite_true]
      split
      · next hle => rw [UMap.getD_erase, if_pos rfl, max_eq_left hle]
      · next hlt => rw [UMap.getD_insert_self, max_eq_right (le_of_not_ge hlt)]
  · cases hb : order.isBuy with
    | true => simp [UMap.getD_insert_ne _ hs, hs]
    | false =>
      simp only [Bool.false_eq_true, ite_false, hs]
      split
      · rw [UMap.getD_erase, if_neg hs, UMap.getD_insert_ne _ hs]
      · rw [UMap.getD_insert_ne _ hs]

/-- A booking that does not oversell moves the position by exactly the signed quantity. -/
theorem onOrderFilled_position_signed (r : RiskManager) (order : Order) (price : ℚ)
    (held : order.isBuy = false → order.quantity ≤ r.position order.symbol) (symbol : String) :
    (r.onOrderFilled order price).position symbol =
      r.position symbol + if symbol = order.symbol then order.signed else 0 := by
  rw [onOrderFilled_position]
  split
  · next hs =>
    subst hs
    cases hb : order.isBuy with
    | true => simp [Order.signed, hb]
    | false =>
      have := held hb
      rw [if_neg (by simp), max_eq_right (by linarith)]
      simp [Order.signed, hb, sub_eq_add_neg]
  · simp

end RiskManager

end TradingTerminal
