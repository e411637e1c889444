import TradingTerminal.Exchange.OrderBody
import TradingTerminal.Live.OrderPath

/-!
# Booked and transmitted quantities

An accepted order is booked with the quantity the strategy asked for and sent with the quantity
written in its request. Under the discipline that each order is placed before the next one is
checked, the two books agree on a run exactly when the exchange accepts whole shares only
(`booksAgree_iff`).
-/

namespace TradingTerminal

open Lib

/-- Signals carry at most one order, of a positive quantity, and find the queue empty. -/
def PlacedBeforeNext (p : OrderPath) : PathInput → Prop
  | .signal signal .. => p.manager.orderQueue = [] ∧ signal.orders.length ≤ 1 ∧
      ∀ order ∈ signal.orders, 0 < order.quantity
  | .process .. => True

/-- The recorded positions are the signed quantities written in the requests that were accepted, and
those quantities are positive. -/
def BooksAgree (p : OrderPath) : Prop :=
  ∃ bodies, (accepted p.sent).map orderBody = bodies.map some ∧
    (∀ symbol, p.manager.risk.position symbol = writtenQuantity bodies symbol) ∧
    ∀ body ∈ bodies, 0 < body.quantity

/-- The order that the exchange accepts in a step is for whole shares. -/
def AcceptsWhole (p : OrderPath) : PathInput → Prop
  | .signal .. => True
  | .process answer _ => answer ≠ "" → ∀ order, p.manager.nextOrder = some order → order.WholeShares

/-- The queue holds nothing, or one order that the books cover. -/
def QueueCovered (p : OrderPath) : Prop :=
  p.manager.orderQueue = [] ∨ ∃ pending, p.manager.orderQueue = [pending] ∧
    0 < pending.order.quantity ∧
    (pending.order.isBuy = false →
      pending.order.quantity ≤ p.manager.risk.position pending.order.symbol)

section Step

variable {p : OrderPath}

theorem BooksAgree.signal (h : BooksAgree p) (signal : Signal) (now : TimePoint) (balance : Nat → ℚ)
    (timestamp : UInt64) :
    BooksAgree (p.step RiskManager.canSubmitOrder (.signal signal now balance timestamp)) := by
  have hframe := OrderManager.processSignal_frame RiskManager.canSubmitOrder p.manager signal now
    balance timestamp
  unfold BooksAgree OrderPath.step
  rw [hframe.risk]
  exact h

theorem QueueCovered.signal {signal : Signal} {now : TimePoint} {balance : Nat → ℚ}
    {timestamp : UInt64} (hone : PlacedBeforeNext p (.signal signal now balance timestamp)) :
    QueueCovered (p.step RiskManager.canSubmitOrder (.signal signal now balance timestamp)) := by
  obtain ⟨hempty, hlength, hpos⟩ := hone
  have hframe := OrderManager.processSignal_frame RiskManager.canSubmitOrder p.manager signal now
    balance timestamp
  unfold QueueCovered
  simp only [OrderPath.step, hframe.risk]
  by_cases hvalid : signal.valid = true
  · rcases horders : signal.orders with _ | ⟨order, rest⟩
    · left
      rw [← hempty, OrderManager.processSignal_queue_eq_iff, horders]
      simp
    · have hrest : rest = [] := by
        rw [horders, List.length_cons] at hlength
        exact List.eq_nil_of_length_eq_zero (by omega)
      rw [hrest] at horders
      rw [OrderManager.processSignal_queue_single RiskManager.canSubmitOrder p.manager hvalid horders,
        hempty, List.nil_append]
      split
      · next hok =>
        have happroved := (RiskManager.canSubmitOrder_iff _ _ _ _).1 (Bool.and_eq_true_iff.1 hok).2
        exact Or.inr ⟨_, rfl, hpos order (by simp [horders]), happroved.2.held⟩
      · exact Or.inl rfl
  · left
    rw [← hempty, OrderManager.processSignal_queue_eq_iff]
    exact Or.inl (Bool.eq_false_iff.2 hvalid)

/-- The order taken next is covered, and leaves the queue empty. -/
theorem QueueCovered.next (h : QueueCovered p) {order : Order} (hnext : p.manager.nextOrder = some order) :
    (∃ pending, p.manager.orderQueue = [pending] ∧ pending.order = order) ∧ 0 < order.quantity ∧
      (order.isBuy = false → order.quantity ≤ p.manager.risk.position order.symbol) := by
  obtain ⟨-, pending, rest, hq, rfl⟩ := OrderManager.nextOrder_eq_some.1 hnext
  rcases h with hempty | ⟨pending', hq', hpos, hheld⟩
  · rw [hempty] at hq
    cases hq
  · rw [hq'] at hq
    obtain ⟨rfl, rfl⟩ := List.cons.inj hq
    exact ⟨⟨pending', hq', rfl⟩, hpos, hheld⟩

theorem QueueCovered.process (h : QueueCovered p) (answer : String) (latency : Nat) :
    QueueCovered (p.step RiskManager.canSubmitOrder (.process answer latency)) := by
  cases hnext : p.manager.nextOrder with
  | none => rwa [p.step_process_none _ answer latency hnext]
  | some order =>
    have hplaced := p.step_process_some RiskManager.canSubmitOrder answer latency hnext
    obtain ⟨pending, -, hqueue⟩ := hplaced.orderQueue
    obtain ⟨⟨pending', hq', -⟩, -⟩ := h.next hnext
    rw [hq'] at hqueue
    exact Or.inl (List.cons.inj hqueue).2.symm

/-- Booking an accepted order keeps the books in agreement exactly when it is for whole shares. -/
theorem booksAgree_accepted_iff (h : BooksAgree p) (hcovered : QueueCovered p) {answer : String}
    (latency : Nat) (hanswer : answer ≠ "") {order : Order} (hnext : p.manager.nextOrder = some order) :
    BooksAgree (p.step RiskManager.canSubmitOrder (.process answer latency)) ↔ order.WholeShares := by
  obtain ⟨bodies, hbodies, hposition, hpositive⟩ := h
  obtain ⟨-, hpos, hheld⟩ := hcovered.next hnext
  have hplaced := p.step_process_some RiskManager.canSubmitOrder answer latency hnext
  have hmoved := fun symbol =>
    RiskManager.onOrderFilled_position_signed p.manager.risk order order.priceOrOne hheld symbol
  rw [← orderBody_full_iff hpos]
  unfold BooksAgree
  rw [hplaced.sent, hplaced.risk, accepted_concat, if_neg hanswer, if_neg hanswer]
  constructor
  · rintro ⟨bodies', hbodies', hposition', -⟩
    rw [List.map_append, hbodies, List.map_singleton] at hbodies'
    obtain ⟨before, last, rfl, hbefore, hlast⟩ := List.append_eq_map_iff.1 hbodies'
    obtain ⟨body, rfl, hbody⟩ := List.map_eq_singleton_iff.1 hlast
    obtain rfl : before = bodies := List.map_injective_iff.2 (Option.some_injective _) hbefore
    refine ⟨body, hbody.symm, ?_⟩
    have hsymbol := hposition' order.symbol
    rw [hmoved, hposition, if_pos rfl, writtenQuantity_concat, symbol_orderBody hbody.symm,
      if_pos rfl, add_right_inj, signed_orderBody hbody.symm, Order.signed] at hsymbol
    cases hb : order.isBuy with
    | true =>
      rw [if_pos hb, if_pos hb] at hsymbol
      exact hsymbol.symm
    | false =>
      rw [if_neg (by simp [hb]), if_neg (by simp [hb]), neg_inj] at hsymbol
      exact hsymbol.symm
  · rintro ⟨body, hbody, hfull⟩
    refine ⟨bodies ++ [body], by rw [List.map_append, List.map_append, hbodies, List.map_singleton,
      List.map_singleton, hbody], fun symbol => ?_, fun b hb => ?_⟩
    · rw [hmoved, hposition, writtenQuantity_concat, symbol_orderBody hbody, signed_orderBody hbody,
        hfull, Order.signed]
    · rcases List.mem_append.1 hb with hb | hb
      · exact hpositive b hb
      · rw [List.mem_singleton.1 hb, hfull]
        exact hpos

/-- A pass that takes no order, or whose order the exchange refuses, leaves both books alone. -/
theorem booksAgree_process_idle (h : BooksAgree p) {answer : String} (latency : Nat)
    (hidle : answer = "" ∨ p.manager.nextOrder = none) :
    BooksAgree (p.step RiskManager.canSubmitOrder (.process answer latency)) := by
  cases hnext : p.manager.nextOrder with
  | none => rwa [p.step_process_none _ answer latency hnext]
  | some order =>
    have hanswer : answer = "" := hidle.resolve_right (by simp [hnext])
    have hplaced := p.step_process_some RiskManager.canSubmitOrder answer latency hnext
    unfold BooksAgree
    rw [hplaced.sent, hplaced.risk, accepted_concat, if_pos hanswer, if_pos hanswer]
    exact h

end Step

/-- **Booked and transmitted quantities.** Over every run of the order path in which each order, of a
positive quantity, is placed before the next one is checked, the recorded positions are the signed
quantities of the accepted requests, all of them positive, in every state if and only if every
accepted order is for a whole number of shares that fits an `int`. -/
theorem booksAgree_iff (l : Limits) (breaker : CircuitBreaker) (xs : List PathInput)
    (hxs : Guarded (OrderPath.step RiskManager.canSubmitOrder) PlacedBeforeNext
      (.fresh l breaker) xs) :
    Throughout (OrderPath.step RiskManager.canSubmitOrder) BooksAgree (.fresh l breaker) xs ↔
      Guarded (OrderPath.step RiskManager.canSubmitOrder) AcceptsWhole (.fresh l breaker) xs := by
  apply throughout_iff_guarded_within (I := fun p => BooksAgree p ∧ QueueCovered p)
    (A := PlacedBeforeNext)
  · exact fun p h => h.1
  · rintro p x hone ⟨hbooks, hcovered⟩ hwhole
    cases x with
    | signal signal now balance timestamp =>
      exact ⟨hbooks.signal signal now balance timestamp, QueueCovered.signal hone⟩
    | process answer latency =>
      refine ⟨?_, hcovered.process answer latency⟩
      by_cases hanswer : answer = ""
      · exact booksAgree_process_idle hbooks latency (Or.inl hanswer)
      · cases hnext : p.manager.nextOrder with
        | none => exact booksAgree_process_idle hbooks latency (Or.inr hnext)
        | some order =>
          exact (booksAgree_accepted_iff hbooks hcovered latency hanswer hnext).2
            (hwhole hanswer order hnext)
  · rintro p x - ⟨hbooks, hcovered⟩ hwhole hafter
    apply hwhole
    cases x with
    | signal => trivial
    | process answer latency =>
      intro hanswer order hnext
      exact (booksAgree_accepted_iff hbooks hcovered latency hanswer hnext).1 hafter
  · exact hxs
  · refine ⟨⟨[], rfl, fun symbol => ?_, by simp⟩, Or.inl rfl⟩
    simp [OrderPath.fresh, RiskManager.position]

section OneOrder

def acceptedBuy (quantity : ℚ) : List PathInput :=
  [.signal { orders := [{ symbol := "AAPL", price := 100, quantity }], valid := true } 0
    (fun _ => 100000) 0, .process "1" 0]

theorem acceptedBuy_placedBeforeNext {quantity : ℚ} (h : 0 < quantity) :
    Guarded (OrderPath.step RiskManager.canSubmitOrder) PlacedBeforeNext
      (.fresh {} (.new 100000 0)) (acceptedBuy quantity) := by
  simp [acceptedBuy, PlacedBeforeNext, OrderPath.fresh, h]

theorem wholeBuy_booksAgree :
    Throughout (OrderPath.step RiskManager.canSubmitOrder) BooksAgree (.fresh {} (.new 100000 0))
      (acceptedBuy 5) := by
  refine (booksAgree_iff {} _ _ (acceptedBuy_placedBeforeNext (by norm_num))).2 ?_
  refine guarded_cons.2 ⟨trivial, guarded_cons.2 ⟨?_, guarded_nil⟩⟩
  intro _ order hnext
  have htaken : order = { symbol := "AAPL", price := 100, quantity := 5, clientOrderId := "client_1" } :=
    Option.some.inj (hnext.symm.trans (by decide +kernel))
  rw [htaken]
  decide +kernel

def sevenShares : OrderBody where
  symbol := "AAPL"
  qty := "7"
  side := "buy"
  type := "market"
  timeInForce := "day"
  limitPrice := none
  clientOrderId := some "client_1"

/-- A BUY of seven and a half shares is sent as one of seven. -/
theorem fractionalBuy_not_booksAgree :
    Guarded (OrderPath.step RiskManager.canSubmitOrder) PlacedBeforeNext
        (.fresh {} (.new 100000 0)) (acceptedBuy (15 / 2)) ∧
      ¬ Throughout (OrderPath.step RiskManager.canSubmitOrder) BooksAgree (.fresh {} (.new 100000 0))
        (acceptedBuy (15 / 2)) := by
  refine ⟨acceptedBuy_placedBeforeNext (by norm_num), fun h => ?_⟩
  obtain ⟨bodies, hbodies, hposition, -⟩ := h.last
  have hsent : ((accepted (run (OrderPath.step RiskManager.canSubmitOrder) (.fresh {} (.new 100000 0))
      (acceptedBuy (15 / 2))).sent).map orderBody) = [some sevenShares] := by
    decide +kernel
  rw [hsent] at hbodies
  obtain ⟨body, rfl, hbody⟩ := List.map_eq_singleton_iff.1 hbodies.symm
  obtain rfl := Option.some.inj hbody
  exact absurd (hposition "AAPL") (by decide +kernel)

end OneOrder

end TradingTerminal
