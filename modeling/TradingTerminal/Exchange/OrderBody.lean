import TradingTerminal.Core.Types
import TradingTerminal.Lib.Numeral

/-!
# The body of an order request

`AlpacaClient::place_order` of `exchange/alpaca_client.cpp` writes an order into a JSON object of
texts. The quantity is cast to `int` first, so what the exchange reads is the number of whole shares
(`quantity_orderBody`); a cast out of the range of `int` has no defined value.
-/

namespace TradingTerminal

open Lib

def Order.isLimit (order : Order) : Bool := order.type = "limit"

/-- `static_cast<int>` of a `double`. -/
def castInt (q : ℚ) : Option Int :=
  (some (truncate q)).filter fun n => -2 ^ 31 ≤ n ∧ n < 2 ^ 31

/-- The JSON object sent to `/v2/orders`, field by field. -/
structure OrderBody where
  symbol : String
  qty : String
  side : String
  type : String
  timeInForce : String
  limitPrice : Option String
  clientOrderId : Option String
  deriving DecidableEq, Repr

/-- The object built by `AlpacaClient::place_order`. -/
def orderBody (order : Order) : Option OrderBody :=
  (castInt order.quantity).map fun shares =>
    { symbol := order.symbol
      qty := String.ofList (ofInt shares)
      side := if order.isBuy then "buy" else "sell"
      type := order.type
      timeInForce := order.tif
      limitPrice :=
        if order.isLimit && order.price > 0 then some (String.ofList (toFixed 6 order.price)) else none
      clientOrderId := if order.clientOrderId = "" then none else some order.clientOrderId }

namespace OrderBody

/-- The number written in the field `qty`. -/
def quantity (body : OrderBody) : ℚ := (strtod body.qty.toList).getD 0

def signed (body : OrderBody) : ℚ := if body.side = "buy" then body.quantity else -body.quantity

end OrderBody

/-- The signed quantities written for a symbol in a list of bodies. -/
def writtenQuantity (bodies : List OrderBody) (symbol : String) : ℚ :=
  ((bodies.filter (·.symbol = symbol)).map OrderBody.signed).sum

@[simp] theorem writtenQuantity_nil (symbol : String) : writtenQuantity [] symbol = 0 := rfl

theorem writtenQuantity_concat (bodies : List OrderBody) (body : OrderBody) (symbol : String) :
    writtenQuantity (bodies ++ [body]) symbol =
      writtenQuantity bodies symbol + if symbol = body.symbol then body.signed else 0 := by
  unfold writtenQuantity
  by_cases h : body.symbol = symbol
  · simp [h]
  · simp [h, Ne.symm h]

/-! ## What is written -/

/-- A whole number of shares that fits an `int`. -/
def Order.WholeShares (order : Order) : Prop := order.quantity.den = 1 ∧ order.quantity < 2 ^ 31

instance (order : Order) : Decidable order.WholeShares := inferInstanceAs (Decidable (_ ∧ _))

section Body

variable {order : Order} {body : OrderBody}

theorem castInt_eq_some {q : ℚ} {n : Int} (h : castInt q = some n) : n = truncate q ∧ n < 2 ^ 31 := by
  obtain ⟨heq, hrange⟩ := Option.filter_eq_some_iff.1 h
  obtain rfl := Option.some.inj heq
  simp only [Bool.decide_and, Bool.and_eq_true, decide_eq_true_eq] at hrange
  exact ⟨rfl, hrange.2⟩

theorem quantity_orderBody (h : orderBody order = some body) :
    body.quantity = truncate order.quantity := by
  obtain ⟨shares, hcast, rfl⟩ := Option.map_eq_some_iff.1 h
  rw [OrderBody.quantity, String.toList_ofList, strtod_ofInt, Option.getD_some,
    (castInt_eq_some hcast).1]

theorem symbol_orderBody (h : orderBody order = some body) : body.symbol = order.symbol := by
  obtain ⟨shares, -, rfl⟩ := Option.map_eq_some_iff.1 h
  rfl

/-- The side is written as booked. -/
theorem signed_orderBody (h : orderBody order = some body) :
    body.signed = if order.isBuy then body.quantity else -body.quantity := by
  obtain ⟨shares, -, rfl⟩ := Option.map_eq_some_iff.1 h
  unfold OrderBody.signed
  cases order.isBuy <;> simp

/-- The quantity is written in full exactly for whole shares. -/
theorem orderBody_full_iff (hpos : 0 < order.quantity) :
    (∃ body, orderBody order = some body ∧ body.quantity = order.quantity) ↔ order.WholeShares := by
  constructor
  · rintro ⟨body, hbody, hfull⟩
    obtain ⟨shares, hcast, -⟩ := Option.map_eq_some_iff.1 hbody
    obtain ⟨hshares, hlt⟩ := castInt_eq_some hcast
    rw [quantity_orderBody hbody, ← hshares] at hfull
    rw [Order.WholeShares, ← hfull]
    exact ⟨Rat.den_intCast shares, by exact_mod_cast hlt⟩
  · rintro ⟨hden, hlt⟩
    have hwhole : order.quantity = (order.quantity.num : ℚ) := (Rat.den_eq_one_iff _).1 hden |>.symm
    have hnum : truncate order.quantity = order.quantity.num := by
      rw [truncate, hden, Nat.cast_one, Int.tdiv_one]
    have hnumPos : 0 < order.quantity.num := Rat.num_pos.2 hpos
    have hnumLt : order.quantity.num < 2 ^ 31 := by
      rw [hwhole] at hlt
      exact_mod_cast hlt
    have hcast : castInt order.quantity = some order.quantity.num := by
      rw [castInt, hnum, Option.filter_some, if_pos]
      simp only [Bool.decide_and, Bool.and_eq_true, decide_eq_true_eq]
      omega
    have hbody : ∃ body, orderBody order = some body := by
      rw [orderBody, hcast]
      exact ⟨_, rfl⟩
    obtain ⟨body, hbody⟩ := hbody
    refine ⟨body, hbody, ?_⟩
    rw [quantity_orderBody hbody, hnum, ← hwhole]

end Body

end TradingTerminal
