import TradingTerminal.Live.RiskManager
import TradingTerminal.Live.CircuitBreaker

/-!
# The order manager

`live/order_manager.hpp`: `processSignal` puts the orders of a signal through the circuit breaker and
the risk check and queues those that pass; one pass of the inner loop of `process_orders` takes the
front order, hands it to the exchange and, when the exchange answers with an id, books it.

The decision of the risk check is a parameter of `processSignal` (`canSubmitOrder`): the terminal
passes `RiskManager.canSubmitOrder`, and a result that holds for any decisions leaves it arbitrary.
What the outside world supplies is an argument: the clock, the cash balance read for each order, the
exchange's answer (an empty string is a refusal) and the latency of the call.
-/

namespace TradingTerminal

open Lib

structure PendingOrder where
  order : Order
  timestamp : UInt64
  status : String
  deriving DecidableEq, Repr

/-- `OrderManager`, with the two components it holds by reference and the static counter of
`generate_client_order_id`. -/
structure OrderManager where
  risk : RiskManager
  breaker : CircuitBreaker
  orderQueue : List PendingOrder := []
  activeOrders : UMap String Order := ∅
  running : Bool := true
  totalOrders : Nat := 0
  filledOrders : Nat := 0
  rejectedOrders : Nat := 0
  totalLatencyUs : Nat := 0
  maxLatencyUs : Nat := 0
  counter : Nat := 0

/-- A risk decision: the manager, the order, the cash and the price it is checked at. -/
abbrev RiskDecision := RiskManager → Order → ℚ → ℚ → Bool

/-- `order.price > 0 ? order.price : 1.0`, the price an order is checked and booked at. -/
def Order.priceOrOne (order : Order) : ℚ := if order.price > 0 then order.price else 1

theorem Order.priceOrOne_pos (order : Order) : 0 < order.priceOrOne := by
  unfold Order.priceOrOne
  split
  · assumption
  · exact one_pos

theorem Order.priceOrOne_of_pos {order : Order} (h : 0 < order.price) :
    order.priceOrOne = order.price :=
  if_pos h

namespace OrderManager

/-- `generate_client_order_id` at the `n`-th call: the pre-incremented counter after a prefix. -/
def clientOrderId (n : Nat) : String := "client_" ++ toString n

/-- The locked part of the order loop: number the order, push it, count it. -/
def enqueue (om : OrderManager) (order : Order) (timestamp : UInt64) : OrderManager :=
  let counter := om.counter + 1
  let pending : PendingOrder :=
    { order := { order with clientOrderId := clientOrderId counter }, timestamp,
      status := "pending" }
  { om with
    counter
    orderQueue := om.orderQueue ++ [pending]
    totalOrders := om.totalOrders + 1 }

def submitOrder (canSubmitOrder : RiskDecision) (om : OrderManager) (order : Order) (balance : ℚ)
    (timestamp : UInt64) : OrderManager :=
  let currentPrice := order.priceOrOne
  if canSubmitOrder om.risk order balance currentPrice then om.enqueue order timestamp
  else { om with rejectedOrders := om.rejectedOrders + 1 }

/-- The order loop of `process_signal`; `balance i` is the cash read for the `i`-th order. -/
def submitOrders (canSubmitOrder : RiskDecision) (om : OrderManager) (orders : List Order)
    (balance : Nat → ℚ) (timestamp : UInt64) : OrderManager :=
  orders.zipIdx.foldl (fun om x => om.submitOrder canSubmitOrder x.1 (balance x.2) timestamp) om

def processSignal (canSubmitOrder : RiskDecision) (om : OrderManager) (signal : Signal)
    (now : TimePoint) (balance : Nat → ℚ) (timestamp : UInt64) : OrderManager :=
  if !signal.valid then om
  else
    let (ok, breaker) := om.breaker.canTrade now
    let om := { om with breaker }
    if !ok then om
    else om.submitOrders canSubmitOrder signal.orders balance timestamp

/-- The bookkeeping after `place_order` returned `orderId` for `pending`. -/
def settle (om : OrderManager) (pending : PendingOrder) (orderId : String) (latency : Nat) :
    OrderManager :=
  let om := { om with
    totalLatencyUs := om.totalLatencyUs + latency
    maxLatencyUs := max om.maxLatencyUs latency }
  if orderId ≠ "" then
    let submitted := { pending.order with alpacaId := orderId, status := "submitted" }
    { om with
      activeOrders := om.activeOrders.insert orderId submitted
      filledOrders := om.filledOrders + 1
      risk := om.risk.onOrderFilled submitted pending.order.priceOrOne }
  else { om with rejectedOrders := om.rejectedOrders + 1 }

/-- The order the next pass of the inner loop of `process_orders` hands to the exchange. -/
def nextOrder (om : OrderManager) : Option Order :=
  if om.running then om.orderQueue.head?.map PendingOrder.order else none

/-- One pass of the inner loop of `process_orders`; without an order to take it does nothing. -/
def processOrder (om : OrderManager) (orderId : String) (latency : Nat) : OrderManager :=
  match om.orderQueue with
  | pending :: rest =>
    if om.running then { om with orderQueue := rest }.settle pending orderId latency else om
  | [] => om

def stop (om : OrderManager) : OrderManager := { om with running := false }

/-! ## What a signal changes

Whatever the risk decisions, a signal only appends to the queue, counts, and lets the breaker look
at the clock. -/

section Signal

variable {d : RiskDecision} {om : OrderManager} {orders : List Order} {balance : Nat → ℚ}
  {timestamp : UInt64}

/-- What one turn of the order loop keeps, the whole loop keeps. -/
theorem submitOrders_induction {P : OrderManager → Prop} (h : P om)
    (turn : ∀ om order cash, order ∈ orders → P om → P (om.submitOrder d order cash timestamp)) :
    P (om.submitOrders d orders balance timestamp) :=
  List.foldlRecOn _ _ h fun om hom x hx =>
    turn om x.1 (balance x.2) (List.fst_mem_of_mem_zipIdx hx) hom

/-- The part of the manager that a signal leaves alone. -/
structure SignalFrame (om om' : OrderManager) : Prop where
  risk : om'.risk = om.risk
  running : om'.running = om.running
  filledOrders : om'.filledOrders = om.filledOrders

theorem SignalFrame.refl (om : OrderManager) : SignalFrame om om := ⟨rfl, rfl, rfl⟩

theorem submitOrder_frame (d : RiskDecision) (om : OrderManager) (order : Order) (cash : ℚ)
    (timestamp : UInt64) : SignalFrame om (om.submitOrder d order cash timestamp) := by
  unfold submitOrder
  dsimp only
  split <;> exact ⟨rfl, rfl, rfl⟩

theorem submitOrders_frame (d : RiskDecision) (om : OrderManager) (orders : List Order)
    (balance : Nat → ℚ) (timestamp : UInt64) :
    SignalFrame om (om.submitOrders d orders balance timestamp) :=
  submitOrders_induction (.refl om) fun om' order cash _ h =>
    have h' := submitOrder_frame d om' order cash timestamp
    ⟨h'.risk.trans h.risk, h'.running.trans h.running, h'.filledOrders.trans h.filledOrders⟩

theorem processSignal_frame (d : RiskDecision) (om : OrderManager) (signal : Signal)
    (now : TimePoint) (balance : Nat → ℚ) (timestamp : UInt64) :
    SignalFrame om (om.processSignal d signal now balance timestamp) := by
  unfold processSignal
  split
  · exact .refl om
  · dsimp only
    split
    · exact ⟨rfl, rfl, rfl⟩
    · have h := submitOrders_frame d { om with breaker := (om.breaker.canTrade now).2 }
        signal.orders balance timestamp
      exact ⟨h.risk, h.running, h.filledOrders⟩

/-- The queue after a turn of the loop: the order numbered and appended, or nothing. -/
theorem submitOrder_queue (d : RiskDecision) (om : OrderManager) (order : Order) (cash : ℚ)
    (timestamp : UInt64) :
    (om.submitOrder d order cash timestamp).orderQueue = om.orderQueue ++
      if d om.risk order cash order.priceOrOne then
        [{ order := { order with clientOrderId := clientOrderId (om.counter + 1) }, timestamp,
           status := "pending" }]
      else [] := by
  unfold submitOrder
  dsimp only
  split <;> simp [enqueue]

/-- Queueing does not change the books, so all orders of a signal are decided against the same
books: what the loop appends is empty exactly if every order is refused there. -/
theorem submitOrders_queue (d : RiskDecision) (om : OrderManager) (orders : List Order)
    (balance : Nat → ℚ) (timestamp : UInt64) :
    ∃ added, (om.submitOrders d orders balance timestamp).orderQueue = om.orderQueue ++ added ∧
      (added = [] ↔ ∀ x ∈ orders.zipIdx, d om.risk x.1 (balance x.2) x.1.priceOrOne = false) := by
  unfold submitOrders
  generalize orders.zipIdx = xs
  induction xs generalizing om with
  | nil => exact ⟨[], by simp⟩
  | cons x xs ih =>
    have hframe := submitOrder_frame d om x.1 (balance x.2) timestamp
    obtain ⟨added, hq, hadded⟩ := ih (om.submitOrder d x.1 (balance x.2) timestamp)
    rw [hframe.risk] at hadded
    rw [List.foldl_cons, hq, submitOrder_queue, List.append_assoc]
    refine ⟨_, rfl, ?_⟩
    cases hd : d om.risk x.1 (balance x.2) x.1.priceOrOne <;> simp [hd, hadded]

/-- A signal queues nothing exactly if it is not valid, the breaker stops it, or every order is
refused against the current books. -/
theorem processSignal_queue_eq_iff (d : RiskDecision) (om : OrderManager) (signal : Signal)
    (now : TimePoint) (balance : Nat → ℚ) (timestamp : UInt64) :
    (om.processSignal d signal now balance timestamp).orderQueue = om.orderQueue ↔
      signal.valid = false ∨ (om.breaker.canTrade now).1 = false ∨
        ∀ x ∈ signal.orders.zipIdx, d om.risk x.1 (balance x.2) x.1.priceOrOne = false := by
  unfold processSignal
  obtain ⟨added, hq, hadded⟩ := submitOrders_queue d
    { om with breaker := (om.breaker.canTrade now).2 } signal.orders balance timestamp
  cases hv : signal.valid with
  | false => simp
  | true =>
    cases hok : (om.breaker.canTrade now).1 with
    | false => simp [hok]
    | true => simpa [hok, hq] using hadded

/-- A valid signal with a single order: it is queued if the breaker and the check let it pass. -/
theorem processSignal_queue_single (d : RiskDecision) (om : OrderManager) {signal : Signal}
    {order : Order} (hvalid : signal.valid = true) (horders : signal.orders = [order])
    (now : TimePoint) (balance : Nat → ℚ) (timestamp : UInt64) :
    (om.processSignal d signal now balance timestamp).orderQueue = om.orderQueue ++
      if (om.breaker.canTrade now).1 && d om.risk order (balance 0) order.priceOrOne then
        [{ order := { order with clientOrderId := clientOrderId (om.counter + 1) }, timestamp,
           status := "pending" }]
      else [] := by
  unfold processSignal submitOrders
  cases hok : (om.breaker.canTrade now).1 <;> simp [hvalid, horders, hok, submitOrder_queue]

theorem processSignal_breaker (d : RiskDecision) (om : OrderManager) (signal : Signal)
    (now : TimePoint) (balance : Nat → ℚ) (timestamp : UInt64) :
    (om.processSignal d signal now balance timestamp).breaker =
      if signal.valid then (om.breaker.canTrade now).2 else om.breaker := by
  unfold processSignal
  cases hv : signal.valid with
  | false => simp
  | true =>
    dsimp only
    cases (om.breaker.canTrade now).1 with
    | false => simp
    | true =>
      simp only [Bool.not_true, Bool.false_eq_true, ite_false, ite_true]
      refine submitOrders_induction (P := fun om' => om'.breaker = (om.breaker.canTrade now).2) rfl ?_
      intro om' order cash _ h
      rw [← h]
      unfold submitOrder
      dsimp only
      split <;> rfl

/-- A property of orders that does not look at the client id, and that every order of the signal
has, carries over to the whole queue. -/
theorem processSignal_forall_queue {p : Order → Prop} (hid : ∀ o id, p o → p { o with
      clientOrderId := id }) {signal : Signal} {now : TimePoint}
    (hs : ∀ o ∈ signal.orders, p o) (hq : ∀ x ∈ om.orderQueue, p x.order) :
    ∀ x ∈ (om.processSignal d signal now balance timestamp).orderQueue, p x.order := by
  unfold processSignal
  split
  · exact hq
  · dsimp only
    split
    · exact hq
    · refine submitOrders_induction (P := fun om => ∀ x ∈ om.orderQueue, p x.order) hq ?_
      intro om order cash ho ih x hx
      rw [submitOrder_queue, List.mem_append] at hx
      rcases hx with hx | hx
      · exact ih x hx
      · split at hx
        · rw [List.mem_singleton.1 hx]
          exact hid _ _ (hs order ho)
        · cases hx

end Signal

/-! ## What the processor changes -/

theorem nextOrder_eq_some {om : OrderManager} {order : Order} :
    om.nextOrder = some order ↔
      om.running = true ∧ ∃ pending rest, om.orderQueue = pending :: rest ∧ pending.order = order := by
  unfold nextOrder
  cases om.orderQueue <;> cases om.running <;> simp

theorem processOrder_of_nextOrder_none {om : OrderManager} (h : om.nextOrder = none)
    (orderId : String) (latency : Nat) : om.processOrder orderId latency = om := by
  unfold nextOrder at h
  unfold processOrder
  cases hq : om.orderQueue <;> cases hr : om.running <;> simp_all

/-- A pass over an accepted order books it; over a refused one it leaves the books alone. -/
theorem settle_risk (om : OrderManager) (pending : PendingOrder) (orderId : String) (latency : Nat) :
    (om.settle pending orderId latency).risk =
      if orderId = "" then om.risk
      else om.risk.onOrderFilled pending.order pending.order.priceOrOne := by
  unfold settle
  by_cases h : orderId = "" <;> simp [h, RiskManager.onOrderFilled]

theorem settle_orderQueue (om : OrderManager) (pending : PendingOrder) (orderId : String)
    (latency : Nat) : (om.settle pending orderId latency).orderQueue = om.orderQueue := by
  unfold settle
  dsimp only
  split <;> rfl

theorem settle_breaker (om : OrderManager) (pending : PendingOrder) (orderId : String)
    (latency : Nat) : (om.settle pending orderId latency).breaker = om.breaker := by
  unfold settle
  dsimp only
  split <;> rfl

theorem settle_running (om : OrderManager) (pending : PendingOrder) (orderId : String)
    (latency : Nat) : (om.settle pending orderId latency).running = om.running := by
  unfold settle
  dsimp only
  split <;> rfl

theorem processOrder_cons {om : OrderManager} {pending : PendingOrder} {rest : List PendingOrder}
    (hq : om.orderQueue = pending :: rest) (hr : om.running = true) (orderId : String)
    (latency : Nat) :
    om.processOrder orderId latency =
      { om with orderQueue := rest }.settle pending orderId latency := by
  simp [processOrder, hq, hr]

end OrderManager

end TradingTerminal
