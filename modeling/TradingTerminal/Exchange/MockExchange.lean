import TradingTerminal.Core.Types
import Mathlib.Tactic.Linarith

/-!
# The mock exchange

`exchange/mock_exchange.hpp`: a price that walks between 50 and 250, the cash of one account, and
the subscribed symbols. Every symbol is quoted at the one price. `run` moves the price in two writes,
and no lock keeps `place_order` on another thread from reading between them. The steps of the walk
and the volumes come from a random number generator, the times from the clock; they are arguments.
-/

namespace TradingTerminal

structure MockExchange where
  balance : ℚ := 100000
  symbols : List String := []
  mockPrice : ℚ := 150
  deriving DecidableEq, Repr

namespace MockExchange

/-- `place_order`: the answer, with `now` the reading of the steady clock. -/
def placeOrder (m : MockExchange) (order : Order) (now : Nat) : String × MockExchange :=
  let fillPrice := m.mockPrice
  let cost := fillPrice * order.quantity
  let id := "mock_order_" ++ toString now
  if order.isBuy then
    if m.balance < cost then ("", m)
    else (id, { m with balance := m.balance - cost })
  else (id, { m with balance := m.balance + cost })

def subscribeSymbol (m : MockExchange) (symbol : String) : MockExchange :=
  if symbol ∈ m.symbols then m else { m with symbols := m.symbols ++ [symbol] }

/-- A number that `m_price_jitter` draws. -/
def Jitter : Type := {step : ℚ // |step| ≤ 1 / 10}

/-- The first write of a round of `run`. -/
def jitter (m : MockExchange) (step : Jitter) : MockExchange :=
  { m with mockPrice := m.mockPrice + step.1 }

/-- The second write of a round of `run`. -/
def clamp (m : MockExchange) : MockExchange :=
  { m with mockPrice := max 50 (min 250 m.mockPrice) }

/-- The tick that `run` hands to the callback for a symbol. -/
def tick (m : MockExchange) (symbol : String) (volume : ℚ) (timestamp : UInt64) : Tick :=
  { timestamp, symbol, price := m.mockPrice, volume, bid := m.mockPrice - 1 / 100,
    ask := m.mockPrice + 1 / 100 }

/-- The price between two rounds. -/
def InBand (m : MockExchange) : Prop := 50 ≤ m.mockPrice ∧ m.mockPrice ≤ 250

/-- The price is out of its band by a jitter at most, and no symbol is subscribed twice. -/
structure Valid (m : MockExchange) : Prop where
  price : 499 / 10 ≤ m.mockPrice ∧ m.mockPrice ≤ 2501 / 10
  nodup : m.symbols.Nodup

variable {m : MockExchange}

theorem valid_new : Valid {} := by
  constructor <;> norm_num

theorem inBand_new : InBand {} := by
  constructor <;> norm_num

theorem Valid.subscribeSymbol (h : Valid m) (symbol : String) :
    Valid (m.subscribeSymbol symbol) := by
  unfold MockExchange.subscribeSymbol
  split
  · exact h
  · next hnew =>
    refine ⟨h.price, ?_⟩
    rw [List.nodup_append]
    refine ⟨h.nodup, by simp, ?_⟩
    rintro a ha b hb rfl
    exact hnew (List.mem_singleton.1 hb ▸ ha)

theorem clamp_inBand (m : MockExchange) : m.clamp.InBand :=
  ⟨le_max_left _ _, max_le (by norm_num) (min_le_left _ _)⟩

theorem Valid.clamp (h : Valid m) : Valid m.clamp := by
  obtain ⟨hlow, hhigh⟩ := m.clamp_inBand
  exact ⟨⟨by linarith, by linarith⟩, h.nodup⟩

theorem Valid.jitter (h : Valid m) (hband : m.InBand) (step : Jitter) : Valid (m.jitter step) := by
  obtain ⟨hlow, hhigh⟩ := hband
  obtain ⟨hdown, hup⟩ := abs_le.1 step.2
  refine ⟨⟨?_, ?_⟩, h.nodup⟩
  · show 499 / 10 ≤ m.mockPrice + step.1
    linarith
  · show m.mockPrice + step.1 ≤ 2501 / 10
    linarith

/-- What an order does to the exchange: it is refused, or its cost leaves the cash. -/
theorem placeOrder_cases (m : MockExchange) (order : Order) (now : Nat) :
    ((m.placeOrder order now).1 = "" ∧ (m.placeOrder order now).2 = m) ∨
      ((m.placeOrder order now).1 ≠ "" ∧
        (order.isBuy = true → m.mockPrice * order.quantity ≤ m.balance) ∧
        (m.placeOrder order now).2 =
          { m with balance := m.balance - order.signed * m.mockPrice }) := by
  unfold placeOrder Order.signed
  cases order.isBuy with
  | true =>
    by_cases hcost : m.balance < m.mockPrice * order.quantity
    · exact .inl (by simp [hcost])
    · refine .inr ⟨by simp [hcost], fun _ => not_lt.1 hcost, ?_⟩
      simp [hcost, mul_comm]
  | false =>
    refine .inr ⟨by simp, by simp, ?_⟩
    simp [mul_comm]

end MockExchange

end TradingTerminal
