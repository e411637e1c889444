import TradingTerminal.Live.OrderPath
import TradingTerminal.Lib.Tickets
import Mathlib

/-!
# The order manager under threads

The order manager as several threads drive it. Any number of producers run `process_signal` at the
same time, one thread runs `process_orders`, and someone may call `stop`. An action lets one thread
take one atomic step: a push under the queue lock, the test of the inner loop, the pop, or one
operation on an atomic variable. The processor holds the lock from the test to the pop, so that a
push waits; `stop` takes no lock and may store in between. The interleaving is the list of actions.

The risk decision and the exchange's answer come with the action, so that every decision and every
answer is possible, but not that a call of the exchange throws. Three logs that the program does not
keep record what happened: the orders pushed to the queue, the orders the risk check turned away, and
the orders passed to `place_order` with the answers. The 64-bit counters are natural numbers.

`Accounted` relates the counters to the logs at every point of every thread; `Distinct` does the
same for the client order ids.
-/

namespace TradingTerminal

open Lib

/-- The orders of an exchange record that the exchange refused. -/
def refused (sent : List (Order × String)) : List Order :=
  (sent.filter (·.2 = "")).map Prod.fst

theorem refused_concat (sent : List (Order × String)) (order : Order) (answer : String) :
    refused (sent ++ [(order, answer)]) =
      if answer = "" then refused sent ++ [order] else refused sent := by
  by_cases h : answer = "" <;> simp [refused, h]

/-- The exchange accepts or refuses every order it is sent. -/
theorem length_accepted_add_refused (sent : List (Order × String)) :
    (accepted sent).length + (refused sent).length = sent.length := by
  induction sent with
  | nil => rfl
  | cons x sent ih =>
    by_cases h : x.2 = "" <;> simp [accepted, refused, h] at ih ⊢ <;> omega

/-- Where a producer stands in `process_signal`: outside, at the head of the order loop, in the
branch of a blocked order, past the check, or holding the number drawn for the order. -/
inductive Producer where
  | idle
  | looping (orders : List Order) (timestamp : UInt64)
  | blocked (order : Order) (rest : List Order) (timestamp : UInt64)
  | approved (order : Order) (rest : List Order) (timestamp : UInt64)
  | numbered (n : Nat) (order : Order) (rest : List Order) (timestamp : UInt64)

/-- Where the processor stands in the inner loop of `process_orders`: between two iterations, past
the test of the loop, with the front order popped, with the exchange's answer, or with an accepted
order counted. -/
inductive Processor where
  | waiting
  | popping
  | popped (pending : PendingOrder)
  | answered (pending : PendingOrder) (orderId : String)
  | counted (pending : PendingOrder) (orderId : String)
  deriving DecidableEq, Repr

/-- The order manager, its threads and the three logs. -/
structure OrderThreads where
  manager : OrderManager
  producers : Nat → Producer := fun _ => .idle
  processor : Processor := .waiting
  pushed : List Order := []
  blocked : List Order := []
  sent : List (Order × String) := []

/-- One thread takes one step: a producer enters `process_signal`, a producer goes on (`approve` is
the decision if it is at the risk check), the processor goes on (`answer` and `latency` are the
exchange's if it is at `place_order`), or `stop` clears the flag. -/
inductive ThreadAction where
  | call (i : Nat) (signal : Signal) (now : TimePoint) (timestamp : UInt64)
  | produce (i : Nat) (approve : Bool)
  | process (answer : String) (latency : Nat)
  | stop

namespace OrderThreads

/-- The orders passed to `place_order`, in order. -/
def placed (t : OrderThreads) : List Order := t.sent.map Prod.fst

def setProducer (t : OrderThreads) (i : Nat) (p : Producer) : OrderThreads :=
  { t with producers := Function.update t.producers i p }

def call (t : OrderThreads) (i : Nat) (signal : Signal) (now : TimePoint) (timestamp : UInt64) :
    OrderThreads :=
  match t.producers i with
  | .idle =>
    if !signal.valid then t
    else
      let (ok, breaker) := t.manager.breaker.canTrade now
      let t := { t with manager := { t.manager with breaker } }
      if !ok then t else t.setProducer i (.looping signal.orders timestamp)
  | _ => t

/-- The next step of producer `i` in the order loop. -/
def produce (t : OrderThreads) (i : Nat) (approve : Bool) : OrderThreads :=
  match t.producers i with
  | .idle => t
  | .looping [] _ => t.setProducer i .idle
  | .looping (order :: rest) timestamp =>
    if approve then t.setProducer i (.approved order rest timestamp)
    else { t with blocked := t.blocked ++ [order] }.setProducer i (.blocked order rest timestamp)
  | .blocked _ rest timestamp =>
    { t with
      manager := { t.manager with rejectedOrders := t.manager.rejectedOrders + 1 }
    }.setProducer i (.looping rest timestamp)
  | .approved order rest timestamp =>
    let counter := t.manager.counter + 1
    { t with manager := { t.manager with counter } }.setProducer i
      (.numbered counter order rest timestamp)
  | .numbered n order rest timestamp =>
    -- waits for the queue lock
    if t.processor = .popping then t
    else
      let pending : PendingOrder :=
        { order := { order with clientOrderId := OrderManager.clientOrderId n }, timestamp,
          status := "pending" }
      { t with
        manager := { t.manager with
          orderQueue := t.manager.orderQueue ++ [pending]
          totalOrders := t.manager.totalOrders + 1 }
        pushed := t.pushed ++ [pending.order] }.setProducer i (.looping rest timestamp)

def process (t : OrderThreads) (answer : String) (latency : Nat) : OrderThreads :=
  match t.processor with
  | .waiting =>
    if !t.manager.orderQueue.isEmpty && t.manager.running then { t with processor := .popping }
    else t
  | .popping =>
    match t.manager.orderQueue with
    | pending :: rest =>
      { t with manager := { t.manager with orderQueue := rest }, processor := .popped pending }
    | [] => t
  | .popped pending =>
    { t with
      manager := { t.manager with
        totalLatencyUs := t.manager.totalLatencyUs + latency
        maxLatencyUs := max t.manager.maxLatencyUs latency }
      processor := .answered pending answer
      sent := t.sent ++ [(pending.order, answer)] }
  | .answered pending orderId =>
    if orderId ≠ "" then
      let submitted := { pending.order with alpacaId := orderId, status := "submitted" }
      { t with
        manager := { t.manager with
          activeOrders := t.manager.activeOrders.insert orderId submitted
          filledOrders := t.manager.filledOrders + 1 }
        processor := .counted pending orderId }
    else
      { t with
        manager := { t.manager with rejectedOrders := t.manager.rejectedOrders + 1 }
        processor := .waiting }
  | .counted pending orderId =>
    let submitted := { pending.order with alpacaId := orderId, status := "submitted" }
    { t with
      manager := { t.manager with
        risk := t.manager.risk.onOrderFilled submitted pending.order.priceOrOne }
      processor := .waiting }

def step (t : OrderThreads) : ThreadAction → OrderThreads
  | .call i signal now timestamp => t.call i signal now timestamp
  | .produce i approve => t.produce i approve
  | .process answer latency => t.process answer latency
  | .stop => { t with manager := t.manager.stop }

/-- A started order manager with empty books, an empty queue, no call under way and empty logs. -/
def fresh (limits : Limits) (breaker : CircuitBreaker) : OrderThreads :=
  { manager := { risk := { limits }, breaker } }

end OrderThreads

/-! ## The counters -/

namespace Processor

/-- The order that has left the queue and has not reached the exchange. -/
@[simp] def inHand : Processor → List PendingOrder
  | popped pending => [pending]
  | _ => []

/-- The number of accepted orders `m_filled_orders` does not count yet. -/
@[simp] def toFill : Processor → Nat
  | answered _ orderId => if orderId = "" then 0 else 1
  | _ => 0

/-- The number of refused orders `m_rejected_orders` does not count yet. -/
@[simp] def toReject : Processor → Nat
  | answered _ orderId => if orderId = "" then 1 else 0
  | _ => 0

/-- The number of counted orders the risk manager has not booked yet. -/
@[simp] def toBook : Processor → Nat
  | counted _ _ => 1
  | _ => 0

end Processor

/-- The risk check has turned the order down, and `m_rejected_orders` does not count it yet. -/
def Producer.refusing : Producer → Bool
  | blocked .. => true
  | _ => false

namespace OrderThreads

/-- The producers that stand between a refusal of the risk check and its count. -/
def refusing (t : OrderThreads) : Set Nat := {i | (t.producers i).refusing = true}

/-- Where every order that was ever pushed or blocked is, and which counter says so. -/
structure Accounted (t : OrderThreads) : Prop where
  sequence : t.pushed =
    t.placed ++ (t.processor.inHand ++ t.manager.orderQueue).map PendingOrder.order
  total : t.manager.totalOrders = t.pushed.length
  filled : t.manager.filledOrders + t.processor.toFill = (accepted t.sent).length
  finite : t.refusing.Finite
  rejected : t.manager.rejectedOrders + t.processor.toReject + t.refusing.ncard =
    t.blocked.length + (refused t.sent).length
  trades : t.manager.risk.todayTrades + t.processor.toBook = t.manager.filledOrders

theorem refusing_fresh (limits : Limits) (breaker : CircuitBreaker) :
    (fresh limits breaker).refusing = ∅ := by
  simp [refusing, fresh, Producer.refusing]

theorem accounted_fresh (limits : Limits) (breaker : CircuitBreaker) :
    Accounted (fresh limits breaker) := by
  refine ⟨rfl, rfl, rfl, ?_, ?_, rfl⟩
  · rw [refusing_fresh]
    exact Set.finite_empty
  · rw [refusing_fresh, Set.ncard_empty]
    rfl

variable {t : OrderThreads}

theorem mem_refusing {i : Nat} : i ∈ t.refusing ↔ (t.producers i).refusing = true := Iff.rfl

theorem refusing_setProducer_of_refusing {i : Nat} {p : Producer} (hp : p.refusing = true) :
    (t.setProducer i p).refusing = insert i t.refusing := by
  ext j
  by_cases hj : j = i <;> simp [refusing, setProducer, Function.update_apply, hj, hp]

theorem refusing_setProducer {i : Nat} {p : Producer} (hp : p.refusing = false) :
    (t.setProducer i p).refusing = t.refusing \ {i} := by
  ext j
  by_cases hj : j = i <;> simp [refusing, setProducer, Function.update_apply, hj, hp]

/-- A producer goes on that has no refusal to count, neither before nor afterwards. -/
theorem Accounted.setProducer (h : Accounted t) {i : Nat} {p : Producer}
    (hi : (t.producers i).refusing = false) (hp : p.refusing = false) :
    Accounted (t.setProducer i p) := by
  have hsame : (t.setProducer i p).refusing = t.refusing := by
    rw [refusing_setProducer hp]
    exact Set.sdiff_singleton_eq_self (by simp [mem_refusing, hi])
  exact ⟨h.sequence, h.total, h.filled, hsame ▸ h.finite, hsame ▸ h.rejected, h.trades⟩

theorem Accounted.call (h : Accounted t) (i : Nat) (signal : Signal) (now : TimePoint)
    (timestamp : UInt64) : Accounted (t.call i signal now timestamp) := by
  have hbreaker : ∀ breaker, Accounted { t with manager := { t.manager with breaker } } :=
    fun _ => ⟨h.sequence, h.total, h.filled, h.finite, h.rejected, h.trades⟩
  unfold OrderThreads.call
  cases hi : t.producers i with
  | idle =>
    dsimp only
    split
    · exact h
    · split
      · exact hbreaker _
      · exact (hbreaker _).setProducer (hi ▸ rfl) rfl
  | _ => exact h

/-- A refusal is logged where the risk check says no, and counted a step later. -/
theorem Accounted.refuse (h : Accounted t) {i : Nat} (hi : (t.producers i).refusing = false)
    (order : Order) {p : Producer} (hp : p.refusing = true) :
    Accounted ({ t with blocked := t.blocked ++ [order] }.setProducer i p) := by
  have hset : ({ t with blocked := t.blocked ++ [order] }.setProducer i p).refusing =
      insert i t.refusing := refusing_setProducer_of_refusing hp
  have hnot : i ∉ t.refusing := by simp [mem_refusing, hi]
  refine ⟨h.sequence, h.total, h.filled, ?_, ?_, h.trades⟩
  · rw [hset]
    exact h.finite.insert i
  · rw [hset, Set.ncard_insert_of_notMem hnot h.finite]
    have := h.rejected
    simp only [OrderThreads.setProducer, List.length_append, List.length_singleton]
    omega

theorem Accounted.countRefusal (h : Accounted t) {i : Nat}
    (hi : (t.producers i).refusing = true) {p : Producer} (hp : p.refusing = false) :
    Accounted ({ t with manager := { t.manager with
      rejectedOrders := t.manager.rejectedOrders + 1 } }.setProducer i p) := by
  have hset : ({ t with manager := { t.manager with
      rejectedOrders := t.manager.rejectedOrders + 1 } }.setProducer i p).refusing =
      t.refusing \ {i} := refusing_setProducer hp
  have hcard := Set.ncard_sdiff_singleton_add_one (mem_refusing.2 hi) h.finite
  refine ⟨h.sequence, h.total, h.filled, ?_, ?_, h.trades⟩
  · rw [hset]
    exact h.finite.sdiff
  · rw [hset]
    have := h.rejected
    simp only [OrderThreads.setProducer]
    omega

theorem Accounted.produce (h : Accounted t) (i : Nat) (approve : Bool) :
    Accounted (t.produce i approve) := by
  unfold OrderThreads.produce
  match hi : t.producers i with
  | .idle => exact h
  | .looping [] _ => exact h.setProducer (by rw [hi]; rfl) rfl
  | .looping (order :: _) _ =>
    dsimp only
    split
    · exact h.setProducer (by rw [hi]; rfl) rfl
    · exact h.refuse (by rw [hi]; rfl) order rfl
  | .blocked order rest timestamp => exact h.countRefusal (by rw [hi]; rfl) rfl
  | .approved order rest timestamp =>
    refine Accounted.setProducer ?_ (hi ▸ rfl) rfl
    exact ⟨h.sequence, h.total, h.filled, h.finite, h.rejected, h.trades⟩
  | .numbered n order rest timestamp =>
    dsimp only
    split
    · exact h
    · refine Accounted.setProducer ?_ (hi ▸ rfl) rfl
      refine ⟨?_, ?_, h.filled, h.finite, h.rejected, h.trades⟩
      · have hseq := h.sequence
        simp only [placed, List.map_append, List.map_cons, List.map_nil] at hseq ⊢
        rw [hseq, List.append_assoc, List.append_assoc]
      · simp [h.total]

theorem Accounted.process (h : Accounted t) (answer : String) (latency : Nat) :
    Accounted (t.process answer latency) := by
  obtain ⟨hseq, htotal, hfilled, hfinite, hrejected, htrades⟩ := id h
  unfold OrderThreads.process
  cases hp : t.processor with
  | waiting =>
    dsimp only
    split
    · simp only [hp] at hseq hfilled hrejected htrades
      exact ⟨hseq, htotal, hfilled, hfinite, hrejected, htrades⟩
    · exact h
  | popping =>
    cases hq : t.manager.orderQueue with
    | nil => exact h
    | cons pending rest =>
      simp only [hp, hq] at hseq hfilled hrejected htrades
      exact ⟨hseq, htotal, hfilled, hfinite, hrejected, htrades⟩
  | popped pending =>
    simp only [hp, Processor.inHand, Processor.toFill, Processor.toReject, Nat.add_zero, placed]
      at hseq hfilled hrejected
    refine ⟨?_, htotal, ?_, hfinite, ?_, by simpa [hp] using htrades⟩
    · simpa [placed] using hseq
    · by_cases ha : answer = "" <;> simp [ha, accepted_concat, hfilled]
    · change _ + _ + t.refusing.ncard = _
      by_cases ha : answer = "" <;> simp [ha, refused_concat] <;> omega
  | answered pending orderId =>
    dsimp only
    split
    · next ha =>
      simp only [hp, Processor.toFill, Processor.toReject, if_neg ha] at hfilled hrejected
      exact ⟨by simpa [hp, placed] using hseq, htotal, hfilled, hfinite, hrejected, by
        simpa [hp] using htrades⟩
    · next ha =>
      rw [not_not] at ha
      simp only [hp, Processor.toFill, Processor.toReject, if_pos ha] at hfilled hrejected
      exact ⟨by simpa [hp, placed] using hseq, htotal, hfilled, hfinite, hrejected, by
        simpa [hp] using htrades⟩
  | counted pending orderId =>
    simp only [hp, Processor.toReject, Processor.toBook] at hrejected htrades
    exact ⟨by simpa [hp, placed] using hseq, htotal, by simpa [hp] using hfilled, hfinite,
      hrejected, by simpa using htrades⟩

theorem Accounted.step (h : Accounted t) (x : ThreadAction) : Accounted (t.step x) := by
  cases x with
  | call i signal now timestamp => exact h.call i signal now timestamp
  | produce i approve => exact h.produce i approve
  | process answer latency => exact h.process answer latency
  | stop => exact ⟨h.sequence, h.total, h.filled, h.finite, h.rejected, h.trades⟩

/-! ## The client order ids -/

/-- Two calls of `generate_client_order_id` never return the same text. -/
theorem clientOrderId_injective : Function.Injective OrderManager.clientOrderId := by
  intro m n h
  rw [OrderManager.clientOrderId, OrderManager.clientOrderId, String.append_right_inj] at h
  exact Nat.repr_injective h

/-- The number a producer has drawn and not used yet. -/
@[simp] def held : Producer → Option Nat
  | .numbered n _ _ _ => some n
  | _ => none

/-- The orders pushed carry the numbers spent. -/
def Distinct (t : OrderThreads) : Prop :=
  ∃ ns, t.pushed.map Order.clientOrderId = ns.map OrderManager.clientOrderId ∧
    Tickets t.manager.counter (fun i => held (t.producers i)) ns

theorem Distinct.nodup (h : Distinct t) : (t.pushed.map Order.clientOrderId).Nodup := by
  obtain ⟨ns, hns, htickets⟩ := h
  rw [hns]
  exact htickets.nodup.map clientOrderId_injective

theorem distinct_fresh (limits : Limits) (breaker : CircuitBreaker) :
    Distinct (fresh limits breaker) :=
  ⟨[], rfl, .start 0⟩

theorem held_update (producers : Nat → Producer) (i : Nat) (p : Producer) :
    (fun j => held (Function.update producers i p j)) =
      Function.update (fun j => held (producers j)) i (held p) := by
  funext j
  by_cases hji : j = i
  · subst hji
    simp only [Function.update_self]
  · simp only [Function.update_of_ne hji]

/-- A producer that holds no number afterwards. -/
theorem Distinct.setProducer (h : Distinct t) (i : Nat) {p : Producer} (hp : held p = none) :
    Distinct (t.setProducer i p) := by
  obtain ⟨ns, hns, htickets⟩ := h
  refine ⟨ns, hns, ?_⟩
  simp only [OrderThreads.setProducer, held_update, hp]
  exact htickets.release i

theorem Distinct.call (h : Distinct t) (i : Nat) (signal : Signal) (now : TimePoint)
    (timestamp : UInt64) : Distinct (t.call i signal now timestamp) := by
  unfold OrderThreads.call
  cases t.producers i with
  | idle =>
    dsimp only
    split
    · exact h
    · split
      · exact h
      · exact Distinct.setProducer h i rfl
  | _ => exact h

theorem Distinct.produce (h : Distinct t) (i : Nat) (approve : Bool) :
    Distinct (t.produce i approve) := by
  unfold OrderThreads.produce
  match hp : t.producers i with
  | .idle => exact h
  | .looping [] _ => exact h.setProducer i rfl
  | .looping (_ :: _) _ =>
    dsimp only
    split
    · exact h.setProducer i rfl
    · exact Distinct.setProducer h i rfl
  | .blocked order rest timestamp =>
    apply Distinct.setProducer
    · exact h
    · rfl
  | .approved order rest timestamp =>
    obtain ⟨ns, hns, htickets⟩ := h
    refine ⟨ns, hns, ?_⟩
    simp only [OrderThreads.setProducer, held_update]
    exact htickets.draw i
  | .numbered n order rest timestamp =>
    dsimp only
    split
    · exact h
    · obtain ⟨ns, hns, htickets⟩ := h
      refine ⟨ns ++ [n], ?_, ?_⟩
      · simp [OrderThreads.setProducer, hns]
      · simp only [OrderThreads.setProducer, held_update]
        exact htickets.spend (by simp [hp])

/-- The processor neither draws numbers nor pushes orders. -/
theorem process_frame (t : OrderThreads) (answer : String) (latency : Nat) :
    (t.process answer latency).pushed = t.pushed ∧
      (t.process answer latency).producers = t.producers ∧
      (t.process answer latency).manager.counter = t.manager.counter := by
  unfold OrderThreads.process
  cases t.processor with
  | waiting =>
    dsimp only
    split <;> exact ⟨rfl, rfl, rfl⟩
  | popping => cases t.manager.orderQueue <;> exact ⟨rfl, rfl, rfl⟩
  | popped pending => exact ⟨rfl, rfl, rfl⟩
  | answered pending orderId =>
    dsimp only
    split <;> exact ⟨rfl, rfl, rfl⟩
  | counted pending orderId => exact ⟨rfl, rfl, rfl⟩

theorem Distinct.step (h : Distinct t) (x : ThreadAction) : Distinct (t.step x) := by
  cases x with
  | call i signal now timestamp => exact h.call i signal now timestamp
  | produce i approve => exact h.produce i approve
  | process answer latency =>
    obtain ⟨hpushed, hproducers, hcounter⟩ := process_frame t answer latency
    unfold Distinct OrderThreads.step
    rw [hpushed, hproducers, hcounter]
    exact h
  | stop => exact h

/-! ## Whole runs -/

theorem run_accounted (limits : Limits) (breaker : CircuitBreaker) (xs : List ThreadAction) :
    Accounted (run step (fresh limits breaker) xs) :=
  run_invariant (fun _ x h => h.step x) (accounted_fresh limits breaker) xs

theorem run_distinct (limits : Limits) (breaker : CircuitBreaker) (xs : List ThreadAction) :
    Distinct (run step (fresh limits breaker) xs) :=
  run_invariant (fun _ x h => h.step x) (distinct_fresh limits breaker) xs

/-- What the counters say between two iterations of the processor. The refusals of the risk check
that a producer has yet to count are missing from `m_rejected_orders`. -/
structure Balanced (t : OrderThreads) : Prop where
  total : t.manager.totalOrders =
    t.manager.filledOrders + (refused t.sent).length + t.manager.orderQueue.length
  rejected : t.manager.rejectedOrders + t.refusing.ncard =
    t.blocked.length + (refused t.sent).length
  trades : t.manager.risk.todayTrades = t.manager.filledOrders

theorem Accounted.balanced (h : Accounted t) (hp : t.processor = .waiting) : Balanced t := by
  obtain ⟨hseq, htotal, hfilled, -, hrejected, htrades⟩ := h
  simp only [hp, Processor.inHand, Processor.toFill, Processor.toReject, Processor.toBook,
    List.nil_append, Nat.cast_zero, add_zero] at hseq hfilled hrejected htrades
  refine ⟨?_, hrejected, htrades⟩
  have hlen := length_accepted_add_refused t.sent
  rw [htotal, hseq, placed, List.length_append, List.length_map, List.length_map]
  omega

/-- **No order is lost, duplicated or reordered.** Under every interleaving the orders passed to
`place_order` are a prefix of the orders pushed, no two of which share a client order id; and
whenever the processor is between two iterations the counters agree with what happened. -/
theorem run_balanced (limits : Limits) (breaker : CircuitBreaker) (xs : List ThreadAction) :
    let t := run step (fresh limits breaker) xs
    t.placed <+: t.pushed ∧ (t.pushed.map Order.clientOrderId).Nodup ∧
      (t.processor = .waiting → Balanced t) :=
  have h := run_accounted limits breaker xs
  ⟨⟨_, h.sequence.symm⟩, (run_distinct limits breaker xs).nodup, h.balanced⟩

/-- The risk check has turned one order down, and its caller has not come to the counter. -/
def uncountedRefusal : List ThreadAction :=
  [.call 0 { orders := [{ symbol := "AAPL", price := 10, quantity := 1 }], valid := true } 0 0,
    .produce 0 false]

/-- The processor has not moved, and `m_rejected_orders` is one short. -/
theorem uncountedRefusal_not_balanced :
    let t := run step (fresh {} (.new 100000 0)) uncountedRefusal
    t.processor = .waiting ∧
      t.manager.rejectedOrders ≠ t.blocked.length + (refused t.sent).length := by
  decide +kernel

/-- Two producers race: the first draws the lower number and pushes last. One of its orders is
blocked, one of the two pushed is refused. -/
def race : List ThreadAction :=
  let signal (symbols : List String) : Signal :=
    { orders := symbols.map fun symbol => { symbol, price := 10, quantity := 1 }, valid := true }
  [.call 0 (signal ["AAPL", "MSFT"]) 0 0, .call 1 (signal ["TSLA"]) 0 0,
    .produce 0 true, .produce 0 true, .produce 1 true, .produce 1 true, .produce 1 true,
    .produce 0 true, .produce 0 false, .process "" 0, .process "" 0, .process "a1" 5,
    .process "" 0, .process "" 0, .process "" 0, .process "" 0, .process "" 7, .process "" 0,
    .produce 0 false]

theorem race_balanced :
    Balanced (run step (fresh {} (.new 100000 0)) race) ∧
      (run step (fresh {} (.new 100000 0)) race).placed.map Order.clientOrderId =
        ["client_2", "client_1"] :=
  ⟨(run_balanced {} (.new 100000 0) race).2.2 (by decide +kernel), by decide +kernel⟩

/-! ## The undisturbed threads

A call of `process_signal` that no other thread interrupts is `OrderManager.processSignal`, and an
iteration of the processor is `OrderManager.processOrder`: the order path of whole calls is one of
the interleavings. -/

section Refines

variable {d : RiskDecision}

/-- A piece of a run in which producer `i` goes to `p` and nobody else moves. -/
structure Moves (t t' : OrderThreads) (i : Nat) (p : Producer) (om : OrderManager) : Prop where
  manager : t'.manager = om
  producers : t'.producers = Function.update t.producers i p
  processor : t'.processor = t.processor
  sent : t'.sent = t.sent

theorem submitOrder_moves {i : Nat} {order : Order} {rest : List Order} {timestamp : UInt64}
    (hi : t.producers i = .looping (order :: rest) timestamp) (hw : t.processor = .waiting)
    (cash : ℚ) :
    ∃ xs, Moves t (run step t xs) i (.looping rest timestamp)
      (t.manager.submitOrder d order cash timestamp) := by
  unfold OrderManager.submitOrder
  cases hd : d t.manager.risk order cash order.priceOrOne with
  | true =>
    refine ⟨[.produce i true, .produce i true, .produce i true], ?_⟩
    constructor <;>
      simp [hd, step, produce, hi, hw, setProducer, OrderManager.enqueue]
  | false =>
    refine ⟨[.produce i false, .produce i true], ?_⟩
    constructor <;> simp [hd, step, produce, hi, setProducer]

theorem Moves.trans {t t' t'' : OrderThreads} {i : Nat} {p p' : Producer} {om om' : OrderManager}
    (h : Moves t t' i p om) (h' : Moves t' t'' i p' om') : Moves t t'' i p' om' :=
  ⟨h'.manager, by rw [h'.producers, h.producers, Function.update_idem],
    h'.processor.trans h.processor, h'.sent.trans h.sent⟩

theorem submitOrders_moves {i : Nat} {timestamp : UInt64} (orders : List (Order × ℚ)) :
    ∀ {t : OrderThreads}, t.producers i = .looping (orders.map Prod.fst) timestamp →
      t.processor = .waiting →
      ∃ xs, Moves t (run step t xs) i .idle
        (orders.foldl (fun om x => om.submitOrder d x.1 x.2 timestamp) t.manager) := by
  induction orders with
  | nil =>
    intro t hi _
    refine ⟨[.produce i true], ?_⟩
    rw [List.map_nil] at hi
    constructor <;> simp [step, produce, hi, setProducer]
  | cons x orders ih =>
    intro t hi hw
    obtain ⟨xs, hxs⟩ := submitOrder_moves (d := d) hi hw x.2
    have hi' : (run step t xs).producers i = .looping (orders.map Prod.fst) timestamp := by
      rw [hxs.producers, Function.update_self]
    obtain ⟨ys, hys⟩ := ih hi' (hxs.processor.trans hw)
    rw [hxs.manager, ← run_append] at hys
    exact ⟨xs ++ ys, hxs.trans hys⟩

/-- A whole call of `process_signal`. -/
theorem processSignal_moves {i : Nat} (hi : t.producers i = .idle) (hw : t.processor = .waiting)
    (signal : Signal) (now : TimePoint) (balance : Nat → ℚ) (timestamp : UInt64) :
    ∃ xs, Moves t (run step t xs) i .idle
      (t.manager.processSignal d signal now balance timestamp) := by
  have hidle : Function.update t.producers i .idle = t.producers := by
    rw [← hi, Function.update_eq_self]
  unfold OrderManager.processSignal
  cases hv : signal.valid with
  | false => exact ⟨[], by simp, hidle.symm, rfl, rfl⟩
  | true =>
    have hcall : t.step (.call i signal now timestamp) = t.call i signal now timestamp := rfl
    cases hok : (t.manager.breaker.canTrade now).1 with
    | false =>
      refine ⟨[.call i signal now timestamp], ?_⟩
      rw [run_cons, run_nil, hcall]
      constructor <;> simp [call, hi, hv, hok, hidle]
    | true =>
      have hmoves : Moves t (t.call i signal now timestamp) i (.looping signal.orders timestamp)
          { t.manager with breaker := (t.manager.breaker.canTrade now).2 } := by
        constructor <;> simp [call, hi, hv, hok, setProducer]
      have hi' : (t.call i signal now timestamp).producers i =
          .looping ((signal.orders.zipIdx.map fun x => (x.1, balance x.2)).map Prod.fst)
            timestamp := by
        rw [hmoves.producers, Function.update_self, List.map_map]
        congr 1
        exact List.zipIdx_map_fst 0 signal.orders |>.symm
      obtain ⟨xs, hxs⟩ := submitOrders_moves (d := d) _ hi' (hmoves.processor.trans hw)
      refine ⟨.call i signal now timestamp :: xs, ?_⟩
      rw [run_cons, hcall]
      rw [hmoves.manager, List.foldl_map] at hxs
      simpa [OrderManager.submitOrders, hok] using hmoves.trans hxs

/-- A whole iteration of the processor. -/
theorem processOrder_moves (hp : t.processor = .waiting) (answer : String) (latency : Nat) :
    ∃ xs, let t' := run step t xs
      t'.manager = t.manager.processOrder answer latency ∧ t'.producers = t.producers ∧
        t'.processor = .waiting ∧
        t'.sent = t.sent ++ (t.manager.nextOrder.map fun order => (order, answer)).toList := by
  unfold OrderManager.processOrder OrderManager.nextOrder
  cases hq : t.manager.orderQueue with
  | nil => exact ⟨[], by simp [hp]⟩
  | cons pending rest =>
    cases hr : t.manager.running with
    | false => exact ⟨[], by simp [hp]⟩
    | true =>
      by_cases ha : answer = ""
      · refine ⟨[.process "" 0, .process "" 0, .process answer latency, .process "" 0], ?_⟩
        simp [step, process, hp, hq, hr, ha, OrderManager.settle]
      · refine ⟨[.process "" 0, .process "" 0, .process answer latency, .process "" 0,
          .process "" 0], ?_⟩
        simp [step, process, hp, hq, hr, ha, OrderManager.settle]

/-- The threads between two whole calls: same manager, same exchange record, nobody inside. -/
structure Quiet (p : OrderPath) (t : OrderThreads) : Prop where
  manager : t.manager = p.manager
  sent : t.sent = p.sent
  idle : ∀ i, t.producers i = .idle
  waiting : t.processor = .waiting

theorem Quiet.step {p : OrderPath} (h : Quiet p t) (x : PathInput) :
    ∃ xs, Quiet (p.step d x) (run step t xs) := by
  cases x with
  | signal signal now balance timestamp =>
    obtain ⟨xs, hxs⟩ :=
      processSignal_moves (d := d) (h.idle 0) h.waiting signal now balance timestamp
    refine ⟨xs, ?_, hxs.sent.trans h.sent, ?_, hxs.processor.trans h.waiting⟩
    · rw [hxs.manager, h.manager]
      rfl
    · intro i
      rw [hxs.producers, Function.update_apply]
      split
      · rfl
      · exact h.idle i
  | process answer latency =>
    obtain ⟨xs, hmanager, hproducers, hprocessor, hsent⟩ :=
      processOrder_moves h.waiting answer latency
    refine ⟨xs, ?_, ?_, fun i => by rw [hproducers, h.idle], hprocessor⟩
    · rw [hmanager, h.manager]
      cases hnext : p.manager.nextOrder with
      | none =>
        rw [OrderPath.step_process_none d p answer latency hnext]
        exact OrderManager.processOrder_of_nextOrder_none hnext answer latency
      | some order => simp [OrderPath.step, hnext]
    · rw [hsent, h.sent, h.manager]
      cases hnext : p.manager.nextOrder <;> simp [OrderPath.step, hnext]

/-- Every run of the order path is an interleaving of the threads. -/
theorem orderPath_interleaves (d : RiskDecision) (limits : Limits) (breaker : CircuitBreaker)
    (inputs : List PathInput) :
    ∃ xs, Quiet (run (OrderPath.step d) (.fresh limits breaker) inputs)
      (run step (fresh limits breaker) xs) := by
  induction inputs using List.reverseRecOn with
  | nil => exact ⟨[], rfl, rfl, fun _ => rfl, rfl⟩
  | append_singleton inputs x ih =>
    obtain ⟨xs, hxs⟩ := ih
    obtain ⟨ys, hys⟩ := hxs.step (d := d) x
    refine ⟨xs ++ ys, ?_⟩
    rw [run_concat, run_append]
    exact hys

/-- So the counters of the order path agree with its exchange record after every step. -/
theorem orderPath_balanced (d : RiskDecision) (limits : Limits) (breaker : CircuitBreaker)
    (inputs : List PathInput) :
    let p := run (OrderPath.step d) (.fresh limits breaker) inputs
    p.manager.totalOrders =
        p.manager.filledOrders + (refused p.sent).length + p.manager.orderQueue.length ∧
      p.manager.risk.todayTrades = p.manager.filledOrders := by
  obtain ⟨xs, hxs⟩ := orderPath_interleaves d limits breaker inputs
  have h := (run_accounted limits breaker xs).balanced hxs.waiting
  intro p
  rw [← hxs.manager, ← hxs.sent]
  exact ⟨h.total, h.trades⟩

end Refines

end OrderThreads

end TradingTerminal
