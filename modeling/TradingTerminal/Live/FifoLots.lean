import Mathlib.Algebra.BigOperators.Group.List.Basic
import Mathlib.Algebra.Order.Ring.Rat
import Mathlib.Tactic.Linarith
import Mathlib.Tactic.Ring

/-!
# First-in-first-out lots

A lot is a number of shares bought at one price. `sellFifo` sells out of a queue of lots, the oldest
first. What it sells, what it costs and what it makes are related by `sellFifo_profit`: the profit
is the revenue of the shares sold minus what they cost, and the cost of the shares sold is what the
queue has lost in cost.

`consumeLots` is the selling loop as the two ledgers of the terminal write it.
-/

namespace TradingTerminal

structure Lot where
  price : ℚ
  quantity : ℚ

/-- Sell `q` units at `price` out of the lots, oldest first: the lots left and the profit made. -/
def sellFifo (price : ℚ) : ℚ → List Lot → List Lot × ℚ
  | _, [] => ([], 0)
  | q, lot :: lots =>
    if q ≤ 0 then (lot :: lots, 0)
    else if lot.quantity ≤ q then
      let (rest, pnl) := sellFifo price (q - lot.quantity) lots
      (rest, (price - lot.price) * lot.quantity + pnl)
    else ({ lot with quantity := lot.quantity - q } :: lots, (price - lot.price) * q)

/-- The loop `while (remaining > 0 && !lots.empty())` of `PnLTracker::record_trade` and
`PositionManager::add_position`: the lots left and the profit, added up from `pnl`. -/
def consumeLots (price : ℚ) : ℚ → List Lot → ℚ → List Lot × ℚ
  | _, [], pnl => ([], pnl)
  | remaining, lot :: lots, pnl =>
    if remaining > 0 then
      let sellQty := min remaining lot.quantity
      let pnl := pnl + (price - lot.price) * sellQty
      let left := lot.quantity - sellQty
      let remaining := remaining - sellQty
      if left ≤ 0 then consumeLots price remaining lots pnl
      -- something is left of the lot, so it covered all that remained and the loop ends
      else ({ lot with quantity := left } :: lots, pnl)
    else (lot :: lots, pnl)

theorem consumeLots_eq (price : ℚ) (lots : List Lot) (q pnl : ℚ) :
    consumeLots price q lots pnl = ((sellFifo price q lots).1, pnl + (sellFifo price q lots).2) := by
  induction lots generalizing q pnl with
  | nil => simp [consumeLots, sellFifo]
  | cons lot lots ih =>
    unfold consumeLots sellFifo
    by_cases hq : q ≤ 0
    · simp [hq, not_lt.2 hq]
    · rw [if_pos (lt_of_not_ge hq), if_neg hq]
      by_cases hlot : lot.quantity ≤ q
      · simp only [min_eq_right hlot, sub_self, le_refl, if_true, ih, if_pos hlot, add_assoc]
      · have hmin : min q lot.quantity = q := min_eq_left (le_of_not_ge hlot)
        have hleft : ¬ lot.quantity - q ≤ 0 := by linarith
        simp only [hmin, if_neg hleft, if_neg hlot]

/-! ## Quantity and cost of a queue -/

/-- The shares in a queue of lots. -/
def lotsQuantity (lots : List Lot) : ℚ := (lots.map Lot.quantity).sum

/-- What the shares in a queue of lots were bought for. -/
def lotsCost (lots : List Lot) : ℚ := (lots.map fun lot => lot.price * lot.quantity).sum

@[simp] theorem lotsQuantity_nil : lotsQuantity [] = 0 := rfl

@[simp] theorem lotsCost_nil : lotsCost [] = 0 := rfl

@[simp] theorem lotsQuantity_cons (lot : Lot) (lots : List Lot) :
    lotsQuantity (lot :: lots) = lot.quantity + lotsQuantity lots := by
  simp [lotsQuantity]

@[simp] theorem lotsCost_cons (lot : Lot) (lots : List Lot) :
    lotsCost (lot :: lots) = lot.price * lot.quantity + lotsCost lots := by
  simp [lotsCost]

theorem lotsQuantity_concat (lots : List Lot) (lot : Lot) :
    lotsQuantity (lots ++ [lot]) = lotsQuantity lots + lot.quantity := by
  simp [lotsQuantity]

theorem lotsCost_concat (lots : List Lot) (lot : Lot) :
    lotsCost (lots ++ [lot]) = lotsCost lots + lot.price * lot.quantity := by
  simp [lotsCost]

/-- Every lot of the queue still holds shares. -/
def Live (lots : List Lot) : Prop := ∀ lot ∈ lots, 0 < lot.quantity

@[simp] theorem live_nil : Live [] := by simp [Live]

@[simp] theorem live_cons {lot : Lot} {lots : List Lot} :
    Live (lot :: lots) ↔ 0 < lot.quantity ∧ Live lots := by
  simp [Live]

theorem live_concat {lot : Lot} {lots : List Lot} :
    Live (lots ++ [lot]) ↔ Live lots ∧ 0 < lot.quantity := by
  simp [Live, or_imp, forall_and]

theorem Live.nonneg {lots : List Lot} (h : Live lots) : 0 ≤ lotsQuantity lots := by
  induction lots with
  | nil => simp
  | cons lot lots ih =>
    obtain ⟨hlot, hlots⟩ := live_cons.1 h
    have := ih hlots
    rw [lotsQuantity_cons]
    linarith

theorem Live.quantity_pos {lots : List Lot} (h : Live lots) (hne : lots ≠ []) :
    0 < lotsQuantity lots := by
  cases lots with
  | nil => exact absurd rfl hne
  | cons lot lots =>
    obtain ⟨hlot, hlots⟩ := live_cons.1 h
    have := hlots.nonneg
    rw [lotsQuantity_cons]
    linarith

/-! ## What a sale does to the queue -/

theorem sellFifo_live {price q : ℚ} {lots : List Lot} (h : Live lots) :
    Live (sellFifo price q lots).1 := by
  induction lots generalizing q with
  | nil => simp [sellFifo]
  | cons lot lots ih =>
    obtain ⟨hlot, hlots⟩ := live_cons.1 h
    unfold sellFifo
    split
    · exact h
    · split
      · exact ih hlots
      · next hlt => exact live_cons.2 ⟨by simpa using hlt, hlots⟩

/-- A sale takes what is asked for, up to all there is. -/
theorem sellFifo_quantity {price q : ℚ} {lots : List Lot} (h : Live lots) (hq : 0 ≤ q) :
    lotsQuantity (sellFifo price q lots).1 = max 0 (lotsQuantity lots - q) := by
  induction lots generalizing q with
  | nil => simp [sellFifo, hq]
  | cons lot lots ih =>
    obtain ⟨hlot, hlots⟩ := live_cons.1 h
    have hrest := hlots.nonneg
    unfold sellFifo
    rw [lotsQuantity_cons]
    split
    · next hle =>
      have hzero : q = 0 := le_antisymm hle hq
      rw [hzero, sub_zero, lotsQuantity_cons, max_eq_right (by linarith)]
    · split
      · next hle =>
        rw [ih hlots (by linarith)]
        congr 1
        ring
      · next hlt =>
        rw [lotsQuantity_cons, max_eq_right (by linarith)]
        ring

/-- **Profit of a sale.** The revenue of the shares that leave the queue, minus the cost that leaves
it with them. -/
theorem sellFifo_profit (price q : ℚ) (lots : List Lot) :
    (sellFifo price q lots).2 =
      price * (lotsQuantity lots - lotsQuantity (sellFifo price q lots).1) -
        (lotsCost lots - lotsCost (sellFifo price q lots).1) := by
  induction lots generalizing q with
  | nil => simp [sellFifo]
  | cons lot lots ih =>
    unfold sellFifo
    split
    · simp
    · split
      · dsimp only
        rw [ih, lotsQuantity_cons, lotsCost_cons]
        ring
      · simp only [lotsQuantity_cons, lotsCost_cons]
        ring

/-- A sale of all there is, or more, empties the queue. -/
theorem sellFifo_eq_nil {price q : ℚ} {lots : List Lot} (h : Live lots) (hq : 0 ≤ q)
    (hall : lotsQuantity lots ≤ q) : (sellFifo price q lots).1 = [] := by
  by_contra hne
  have hpos := (sellFifo_live h).quantity_pos hne
  rw [sellFifo_quantity h hq, max_eq_left (by linarith)] at hpos
  exact lt_irrefl 0 hpos

end TradingTerminal
