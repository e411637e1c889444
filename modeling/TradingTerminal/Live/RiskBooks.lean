import TradingTerminal.Live.RiskManager

/-!
# Runs of approve-and-book

The risk manager fed one order at a time: an order that `canSubmitOrder` approves is booked by
`onOrderFilled` at the price it was checked at, before the next one is looked at. `Ledger` keeps the
booked orders next to the manager; `Ledger.Agrees` says that the recorded positions are the net
booked quantities.
-/

namespace TradingTerminal

open Lib

/-- An order with the cash and the price it is checked against. -/
structure Booking where
  order : Order
  balance : ℚ
  price : ℚ

/-- A risk manager with the orders booked into it so far. -/
structure Ledger where
  risk : RiskManager
  booked : List Order := []

namespace Ledger

/-- Check one order and, when it is approved, book it. -/
def book (s : Ledger) (b : Booking) : Ledger :=
  if s.risk.canSubmitOrder b.order b.balance b.price then
    { risk := s.risk.onOrderFilled b.order b.price, booked := s.booked ++ [b.order] }
  else s

/-- The ledger of a fresh risk manager with limits `l` after the stream `bs`. -/
def after (l : Limits) (bs : List Booking) : Ledger :=
  run book { risk := { limits := l } } bs

/-- The books of the manager are the net booked quantities, under unchanged limits. -/
structure Agrees (l : Limits) (s : Ledger) : Prop where
  limits : s.risk.limits = l
  position : ∀ symbol, s.risk.position symbol = netQuantity s.booked symbol

theorem Agrees.fresh (l : Limits) : Agrees l { risk := { limits := l } } :=
  ⟨rfl, fun _ => by simp [RiskManager.position]⟩

theorem Agrees.book {l : Limits} {s : Ledger} (h : s.Agrees l) (b : Booking) :
    (s.book b).Agrees l := by
  unfold Ledger.book
  split
  · next happ =>
    obtain ⟨-, hfits⟩ := (RiskManager.canSubmitOrder_iff _ _ _ _).1 happ
    refine ⟨by simpa using h.limits, fun symbol => ?_⟩
    rw [RiskManager.onOrderFilled_position_signed _ _ _ hfits.held, h.position,
      netQuantity_concat]
  · exact h

theorem after_agrees (l : Limits) (bs : List Booking) : (after l bs).Agrees l :=
  run_invariant (fun _ b h => h.book b) (Agrees.fresh l) bs

end Ledger

/-- **Closing a position.** After any run of approve-and-book, below the daily trade and loss
limits, a SELL of exactly the booked quantity at a positive price is approved if and only if its
notional at that price is within the single-order limit. -/
theorem exit_approved_iff (l : Limits) (bs : List Booking) (order : Order) (balance price : ℚ)
    (htrades : (Ledger.after l bs).risk.todayTrades < l.maxDailyTrades)
    (hloss : ¬ (Ledger.after l bs).risk.dailyRealizedPnl < -l.maxDailyLoss)
    (hsell : order.isBuy = false)
    (hq : order.quantity = netQuantity (Ledger.after l bs).booked order.symbol)
    (hprice : 0 < price) :
    (Ledger.after l bs).risk.canSubmitOrder order balance price = true ↔
      order.quantity * price ≤ l.maxOrderSize := by
  have h := Ledger.after_agrees l bs
  generalize Ledger.after l bs = s at *
  rw [RiskManager.canSubmitOrder_iff]
  constructor
  · rintro ⟨ha, -⟩
    simpa [h.limits] using ha.size
  · intro hsize
    refine ⟨⟨hprice, ?_, ?_, by simp [hsell]⟩, ⟨?_, by simp [hsell], by simp [hsell], fun _ => ?_⟩⟩
    · simpa [h.limits] using hloss
    · simpa [h.limits] using hsize
    · simpa [h.limits] using htrades
    · rw [h.position, hq]

/-- Ten shares bought at 100 cannot be sold at 150 under the default limits. -/
theorem exit_refused_after_rise :
    let s := Ledger.after {} [⟨{ symbol := "AAPL", price := 100, quantity := 10 }, 100000, 100⟩]
    s.risk.todayTrades < s.risk.limits.maxDailyTrades ∧
      ¬ s.risk.dailyRealizedPnl < -s.risk.limits.maxDailyLoss ∧
      netQuantity s.booked "AAPL" = 10 ∧
      s.risk.canSubmitOrder { symbol := "AAPL", price := 150, quantity := 10, isBuy := false }
        100000 150 = false := by
  decide +kernel

/-- Eight shares bought at 100 can be sold at 120. -/
theorem exit_approved_within_order_size :
    (Ledger.after {}
        [⟨{ symbol := "AAPL", price := 100, quantity := 8 }, 100000, 100⟩]).risk.canSubmitOrder
      { symbol := "AAPL", price := 120, quantity := 8, isBuy := false } 100000 120 = true :=
  (exit_approved_iff {} _ { symbol := "AAPL", price := 120, quantity := 8, isBuy := false } 100000
    120 (by decide +kernel) (by decide +kernel) rfl (by decide +kernel) (by decide +kernel)).2
    (by decide +kernel)

end TradingTerminal
