import TradingTerminal.Live.OrderManager
import TradingTerminal.Lib.Run

/-!
# The order path as a system

The order manager next to the record of its exchange: `sent` lists every order passed to
`place_order`, in order, with the exchange's answer. Its inputs are the calls of `process_signal` and
the passes of the processor thread, in any interleaving.
-/

namespace TradingTerminal

open Lib

/-- The orders of an exchange record that the exchange accepted. -/
def accepted (sent : List (Order × String)) : List Order :=
  (sent.filter (·.2 ≠ "")).map Prod.fst

@[simp] theorem accepted_nil : accepted [] = [] := rfl

theorem accepted_concat (sent : List (Order × String)) (order : Order) (answer : String) :
    accepted (sent ++ [(order, answer)]) =
      if answer = "" then accepted sent else accepted sent ++ [order] := by
  by_cases h : answer = "" <;> simp [accepted, h]

/-- The order manager and what the exchange has seen of it. -/
structure OrderPath where
  manager : OrderManager
  sent : List (Order × String) := []

/-- One step of the order path: a call of `process_signal`, or a pass of the processor with the
exchange's answer to the order it takes. -/
inductive PathInput where
  | signal (signal : Signal) (now : TimePoint) (balance : Nat → ℚ) (timestamp : UInt64)
  | process (answer : String) (latency : Nat)

namespace OrderPath

def step (d : RiskDecision) (p : OrderPath) : PathInput → OrderPath
  | .signal signal now balance timestamp =>
    { p with manager := p.manager.processSignal d signal now balance timestamp }
  | .process answer latency =>
    match p.manager.nextOrder with
    | none => p
    | some order =>
      { manager := p.manager.processOrder answer latency, sent := p.sent ++ [(order, answer)] }

/-- A started order manager with empty books, an empty queue and nothing sent. -/
def fresh (limits : Limits) (breaker : CircuitBreaker) : OrderPath :=
  { manager := { risk := { limits }, breaker } }

variable (d : RiskDecision) (p : OrderPath)

theorem step_process_none (answer : String) (latency : Nat) (h : p.manager.nextOrder = none) :
    p.step d (.process answer latency) = p := by
  simp [step, h]

/-- What a pass of the processor does when it takes an order. -/
structure Placed (p : OrderPath) (order : Order) (answer : String) (p' : OrderPath) : Prop where
  sent : p'.sent = p.sent ++ [(order, answer)]
  risk : p'.manager.risk =
    if answer = "" then p.manager.risk else p.manager.risk.onOrderFilled order order.priceOrOne
  breaker : p'.manager.breaker = p.manager.breaker
  running : p'.manager.running = p.manager.running
  orderQueue : ∃ pending, pending.order = order ∧
    p.manager.orderQueue = pending :: p'.manager.orderQueue

theorem step_process_some {order : Order} (answer : String) (latency : Nat)
    (h : p.manager.nextOrder = some order) :
    Placed p order answer (p.step d (.process answer latency)) := by
  obtain ⟨hr, pending, rest, hq, rfl⟩ := OrderManager.nextOrder_eq_some.1 h
  have hm : (p.step d (.process answer latency)).manager =
      { p.manager with orderQueue := rest }.settle pending answer latency := by
    simp only [step, h]
    exact OrderManager.processOrder_cons hq hr answer latency
  exact {
    sent := by simp only [step, h]
    risk := by rw [hm, OrderManager.settle_risk]
    breaker := by rw [hm, OrderManager.settle_breaker]
    running := by rw [hm, OrderManager.settle_running]
    orderQueue := ⟨pending, rfl, by rw [hm, OrderManager.settle_orderQueue, hq]⟩ }

end OrderPath

end TradingTerminal
