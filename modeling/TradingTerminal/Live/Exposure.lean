import TradingTerminal.Live.RiskBooks
import TradingTerminal.Live.RiskGate

/-!
# What the recorded exposure measures

A BUY adds its notional to `totalExposure`, a SELL takes off the notional of the exit and stops at
zero. Over runs of approve-and-book the exposure is zero exactly when nothing is held only as long as
every sale brings in all that is recorded when it closes the account, and less than that when it does
not (`exposure_zero_iff_flat_iff`).
-/

namespace TradingTerminal

open Lib

namespace RiskManager

variable {r : RiskManager} {order : Order} {price : ℚ}

/-- The books as approve-and-book leaves them: no negative exposure and only open positions. -/
structure Tidy (r : RiskManager) : Prop where
  exposure : 0 ≤ r.totalExposure
  positions : ∀ symbol quantity, r.positions.lookup symbol = some quantity → 0 < quantity

/-- The order is for all that is held, and nothing else is held. -/
def ClosesAll (r : RiskManager) (order : Order) : Prop :=
  ∀ symbol, r.position symbol = if symbol = order.symbol then order.quantity else 0

theorem Tidy.position_nonneg (h : r.Tidy) (symbol : String) : 0 ≤ r.position symbol :=
  UMap.getD_of (le_refl (0 : ℚ)) (fun k v hv => (h.positions k v hv).le) symbol

/-- Nothing is stored exactly when every position reads as zero. -/
theorem Tidy.positions_eq_empty_iff (h : r.Tidy) :
    r.positions = ∅ ↔ ∀ symbol, r.position symbol = 0 := by
  constructor
  · intro hempty symbol
    rw [position, hempty, UMap.getD_empty]
  · intro hzero
    have hnone : ∀ symbol, r.positions.lookup symbol = none := by
      intro symbol
      cases hv : r.positions.lookup symbol with
      | none => rfl
      | some quantity =>
        have hpos := h.positions symbol quantity hv
        have hread : r.position symbol = quantity := by rw [position, UMap.getD, hv, Option.getD_some]
        rw [← hread, hzero symbol] at hpos
        exact absurd hpos (lt_irrefl 0)
    exact UMap.eq_empty_of_lookup hnone

theorem Tidy.onOrderFilled (h : r.Tidy) (hq : 0 < order.quantity) (hprice : 0 < price) :
    (r.onOrderFilled order price).Tidy := by
  refine ⟨?_, onOrderFilled_positions_pos hq h.positions⟩
  cases hb : order.isBuy with
  | true =>
    rw [onOrderFilled_totalExposure_buy r price hb]
    exact add_nonneg h.exposure (mul_pos hq hprice).le
  | false =>
    rw [onOrderFilled_totalExposure_sell r price hb]
    exact le_max_left 0 _

/-- A BUY leaves something held and an exposure. -/
theorem Tidy.buy (h : r.Tidy) (hq : 0 < order.quantity) (hprice : 0 < price)
    (hb : order.isBuy = true) :
    (r.onOrderFilled order price).totalExposure ≠ 0 ∧ (r.onOrderFilled order price).positions ≠ ∅ := by
  constructor
  · rw [onOrderFilled_totalExposure_buy r price hb]
    have hnotional : 0 < order.quantity * price := mul_pos hq hprice
    have hexposure := h.exposure
    linarith
  · intro hempty
    have hzero := ((h.onOrderFilled hq hprice).positions_eq_empty_iff.1 hempty) order.symbol
    have hheld := h.position_nonneg order.symbol
    rw [onOrderFilled_position, if_pos rfl, if_pos hb] at hzero
    linarith

/-- A SELL ends with no exposure when it brings in all that is recorded. -/
theorem onOrderFilled_totalExposure_sell_eq_zero_iff (hb : order.isBuy = false) :
    (r.onOrderFilled order price).totalExposure = 0 ↔ r.totalExposure ≤ order.quantity * price := by
  rw [onOrderFilled_totalExposure_sell r price hb, max_eq_left_iff, sub_nonpos]

/-- A SELL of no more than is held ends with nothing held when it closes the account. -/
theorem Tidy.positions_eq_empty_sell_iff (h : r.Tidy) (hq : 0 < order.quantity)
    (hprice : 0 < price) (hb : order.isBuy = false) (hheld : order.quantity ≤ r.position order.symbol) :
    (r.onOrderFilled order price).positions = ∅ ↔ r.ClosesAll order := by
  rw [(h.onOrderFilled hq hprice).positions_eq_empty_iff]
  apply forall_congr'
  intro symbol
  rw [onOrderFilled_position_signed r order price (fun _ => hheld), Order.signed_of_sell hb]
  by_cases hs : symbol = order.symbol
  · rw [if_pos hs, if_pos hs, ← sub_eq_add_neg, sub_eq_zero]
  · rw [if_neg hs, if_neg hs, add_zero]

end RiskManager

namespace Ledger

variable {s : Ledger} {b : Booking}

/-- The exposure is zero exactly when nothing is held. -/
def ExposureMeasures (s : Ledger) : Prop := s.risk.totalExposure = 0 ↔ s.risk.positions = ∅

/-- An approved SELL brings in all the recorded exposure exactly when it closes the account. -/
def SaleMatchesExposure (s : Ledger) (b : Booking) : Prop :=
  s.risk.canSubmitOrder b.order b.balance b.price = true → b.order.isBuy = false →
    (s.risk.totalExposure ≤ b.order.quantity * b.price ↔ s.risk.ClosesAll b.order)

theorem book_of_approved (happ : s.risk.canSubmitOrder b.order b.balance b.price = true) :
    (s.book b).risk = s.risk.onOrderFilled b.order b.price := by
  rw [book, if_pos happ]

theorem book_of_refused (happ : ¬ s.risk.canSubmitOrder b.order b.balance b.price = true) :
    s.book b = s :=
  if_neg happ

theorem book_tidy (h : s.risk.Tidy) (hq : 0 < b.order.quantity) : (s.book b).risk.Tidy := by
  by_cases happ : s.risk.canSubmitOrder b.order b.balance b.price = true
  · have hprice := ((RiskManager.canSubmitOrder_iff _ _ _ _).1 happ).1.price_pos
    rw [book_of_approved happ]
    exact h.onOrderFilled hq hprice
  · rwa [book_of_refused happ]

/-- One step keeps the meaning of the exposure exactly when its sale matches the exposure. -/
theorem exposureMeasures_book_iff (h : s.risk.Tidy) (hq : 0 < b.order.quantity)
    (hbefore : s.ExposureMeasures) : (s.book b).ExposureMeasures ↔ s.SaleMatchesExposure b := by
  unfold SaleMatchesExposure
  by_cases happ : s.risk.canSubmitOrder b.order b.balance b.price = true
  · obtain ⟨hafford, hfits⟩ := (RiskManager.canSubmitOrder_iff _ _ _ _).1 happ
    unfold ExposureMeasures
    rw [book_of_approved happ]
    cases hb : b.order.isBuy with
    | true =>
      obtain ⟨hexposure, hpositions⟩ := h.buy hq hafford.price_pos hb
      simp [hexposure, hpositions]
    | false =>
      rw [RiskManager.onOrderFilled_totalExposure_sell_eq_zero_iff hb,
        h.positions_eq_empty_sell_iff hq hafford.price_pos hb (hfits.held hb)]
      simp [happ]
  · rw [book_of_refused happ]
    simp [happ, hbefore]

/-- **What the exposure measures.** Over every stream of orders of positive quantities, approved and
booked one by one, the exposure is zero exactly when nothing is held, in every state of the run, if
and only if every approved SELL brings in all the recorded exposure exactly when it closes the
account. -/
theorem exposure_zero_iff_flat_iff (l : Limits) (bs : List Booking)
    (hbs : ∀ b ∈ bs, 0 < b.order.quantity) :
    Throughout book ExposureMeasures { risk := { limits := l } } bs ↔
      Guarded book SaleMatchesExposure { risk := { limits := l } } bs := by
  apply throughout_iff_guarded (I := fun s => s.risk.Tidy ∧ ExposureMeasures s)
    (H := fun b => 0 < b.order.quantity)
  · exact fun s h => h.2
  · rintro s b hq ⟨htidy, hbefore⟩ hmatch
    exact ⟨book_tidy htidy hq, (exposureMeasures_book_iff htidy hq hbefore).2 hmatch⟩
  · rintro s b hq ⟨htidy, hbefore⟩ hmatch hafter
    exact hmatch ((exposureMeasures_book_iff htidy hq hbefore).1 hafter)
  · exact hbs
  · exact ⟨⟨le_refl 0, fun _ _ h => by simp at h⟩, by simp [ExposureMeasures]⟩

section RoundTrip

def booking (isBuy : Bool) (quantity price : ℚ) : Booking :=
  { order := { symbol := "AAPL", price, quantity, isBuy }, balance := 100000, price }

/-- Ten shares bought at 50 and sold at 60: the exposure goes up to 500 and back to zero. -/
theorem gain_measures :
    Throughout book ExposureMeasures { risk := {} } [booking true 10 50, booking false 10 60] := by
  refine (exposure_zero_iff_flat_iff {} _ (by decide +kernel)).2 ?_
  simp only [guarded_cons, guarded_nil, and_true]
  refine ⟨fun _ h => absurd h (by decide +kernel), fun _ _ => ?_⟩
  refine iff_of_true (by decide +kernel) fun symbol => ?_
  rw [book_of_approved (by decide +kernel), RiskManager.onOrderFilled_position]
  by_cases hs : symbol = "AAPL"
  · simp [booking, RiskManager.position, hs]
  · simp [booking, RiskManager.position, hs]

/-- Ten shares bought at 50 and sold at 40: the account is flat and an exposure of 100 stays. -/
theorem loss_leaves_exposure :
    let bs := [booking true 10 50, booking false 10 40]
    (∀ b ∈ bs, 0 < b.order.quantity ∧ 0 < b.price) ∧ (after {} bs).booked = bs.map Booking.order ∧
      (after {} bs).risk.totalExposure = 100 ∧ (after {} bs).risk.positions = ∅ ∧
      ¬ (after {} bs).ExposureMeasures := by
  have hflat : (after {} [booking true 10 50, booking false 10 40]).risk.positions = ∅ :=
    AList.ext (List.isEmpty_iff.1 (by decide +kernel))
  refine ⟨by decide +kernel, by decide +kernel, by decide +kernel, hflat, ?_⟩
  intro h
  exact absurd (h.2 hflat) (by decide +kernel)

end RoundTrip

end Ledger

end TradingTerminal
