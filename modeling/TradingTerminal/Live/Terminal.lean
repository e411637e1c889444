import TradingTerminal.Strategies.LiveStrategy
import TradingTerminal.Live.OrderManager
import TradingTerminal.Lib.Run
import TradingTerminal.Lib.ListErase
import Mathlib.Algebra.Order.BigOperators.Group.List
import Mathlib.Tactic.Linarith

/-!
# The wired terminal

The system `main.cpp` builds: the tick callback asks each strategy in turn for its signal and hands a
valid one to the order manager; the processor thread places the queued orders. Nothing calls
`on_order_filled` or `on_order_rejected`.

A callback is the turns of all strategies on one tick, and the processor may run between any two of
them, so the inputs are single turns and single passes of the processor. The risk decision and the
exchange's answer come with the input. Two logs that the program does not keep say which strategy an
order came from: `owners` runs parallel to the queue, `accepted` holds the orders the exchange took.
-/

namespace TradingTerminal

open Lib

/-- The strategies and the order manager of the terminal. -/
structure Terminal where
  strategies : List LiveStrategy
  manager : OrderManager
  owners : List Nat := []
  accepted : List (Nat × Order) := []

/-- What the outside world supplies to a turn of a strategy: the tick, the strategy's reading of the
clock and that of the circuit breaker, the risk decision, and what `process_signal` reads. -/
structure Turn where
  tick : Tick
  clock : UInt64 := 0
  approve : Bool
  now : TimePoint := 0
  balance : Nat → ℚ
  timestamp : UInt64 := 0

/-- A turn of the `i`-th strategy in a tick callback, or a pass of the processor. -/
inductive TerminalInput where
  | turn (i : Nat) (turn : Turn)
  | process (answer : String) (latency : Nat)

namespace Terminal

/-- The step of the terminal. -/
def step (t : Terminal) : TerminalInput → Terminal
  | .turn i turn =>
    match t.strategies[i]? with
    | none => t
    | some strategy =>
      let (signal, strategy) := strategy.generateSignal turn.tick turn.clock
      let t := { t with strategies := t.strategies.set i strategy }
      if signal.valid then
        let manager := t.manager.processSignal (fun _ _ _ _ => turn.approve) signal turn.now
          turn.balance turn.timestamp
        let queued := manager.orderQueue.length - t.manager.orderQueue.length
        { t with manager, owners := t.owners ++ List.replicate queued i }
      else t
  | .process answer latency =>
    match t.manager.nextOrder with
    | none => t
    | some order =>
      { t with
        manager := t.manager.processOrder answer latency
        owners := t.owners.tail
        accepted :=
          if answer ≠ "" then t.accepted ++ [(t.owners.headD 0, order)] else t.accepted }

/-- The terminal after start-up. -/
def start (params : List StrategyParams) (limits : Limits) (breaker : CircuitBreaker) : Terminal :=
  { strategies := params.map .create, manager := { risk := { limits }, breaker } }

/-- The queue is empty; between two inputs no order is in flight either. -/
def Quiescent (t : Terminal) : Prop := t.manager.orderQueue = []

/-- The net quantity the exchange accepted from a strategy for a symbol. -/
def netAccepted (t : Terminal) (i : Nat) (symbol : String) : ℚ :=
  ((t.accepted.filter fun x => x.1 = i ∧ x.2.symbol = symbol).map (·.2.signed)).sum

/-- The flags of every strategy say what the exchange accepted from it. -/
def FlagsTrack (t : Terminal) : Prop :=
  ∀ i strategy, t.strategies[i]? = some strategy → ∀ symbol,
    (strategy.position symbol).pendingExit = false ∧
      ((strategy.position symbol).inPosition = true ↔ 0 < t.netAccepted i symbol)

/-- The only outcome that needs no callback: the signal holds no SELL, and every BUY in it is of a
positive quantity and passes the breaker and the risk check; an order placed is accepted. -/
def NeedsNoCallback (t : Terminal) : TerminalInput → Prop
  | .turn i turn => ∀ strategy, t.strategies[i]? = some strategy →
      ∀ order ∈ (strategy.generateSignal turn.tick turn.clock).1.orders,
        order.isBuy = true ∧ 0 < order.quantity ∧ turn.approve = true ∧
          (t.manager.breaker.canTrade turn.now).1 = true
  | .process answer _ => t.manager.nextOrder ≠ none → answer ≠ ""

/-! ## Where the orders of a strategy are -/

/-- The orders accepted and the orders queued, each with the strategy it came from. -/
def placedOrQueued (t : Terminal) : List (Nat × Order) :=
  t.accepted ++ t.owners.zip (t.manager.orderQueue.map PendingOrder.order)

/-- Those of one strategy for one symbol. -/
def ordersOf (t : Terminal) (i : Nat) (symbol : String) : List (Nat × Order) :=
  t.placedOrQueued.filter fun x => x.1 = i ∧ x.2.symbol = symbol

theorem placedOrQueued_of_quiescent {t : Terminal} (h : t.Quiescent) :
    t.placedOrQueued = t.accepted := by
  unfold placedOrQueued
  rw [h, List.map_nil, List.zip_nil_right, List.append_nil]

/-- Every queued order has an owner. -/
def Owned (t : Terminal) : Prop := t.owners.length = t.manager.orderQueue.length

/-! ## A pass of the processor -/

/-- What a pass does to the placed and queued orders: it keeps them, or it drops one that was
refused. -/
inductive Passed (t : Terminal) (answer : String) (t' : Terminal) : Prop
  | kept (same : t'.placedOrQueued = t.placedOrQueued)
      (taken : t.manager.nextOrder ≠ none → answer ≠ "")
  | dropped {x : Nat × Order} (refused : t.placedOrQueued[t.accepted.length]? = some x)
      (rest : t'.placedOrQueued = t.placedOrQueued.eraseIdx t.accepted.length)
      (lost : ¬ (t.manager.nextOrder ≠ none → answer ≠ ""))

@[simp] theorem step_process_strategies (t : Terminal) (answer : String) (latency : Nat) :
    (t.step (.process answer latency)).strategies = t.strategies := by
  simp only [step]
  split <;> rfl

theorem step_process {t : Terminal} (howned : t.Owned) (answer : String) (latency : Nat) :
    (t.step (.process answer latency)).Owned ∧
      Passed t answer (t.step (.process answer latency)) := by
  cases hnext : t.manager.nextOrder with
  | none => exact ⟨by simpa [step, hnext] using howned, .kept (by simp [step, hnext]) (by simp [hnext])⟩
  | some order =>
    obtain ⟨hr, pending, rest, hq, rfl⟩ := OrderManager.nextOrder_eq_some.1 hnext
    have hqueue : (t.manager.processOrder answer latency).orderQueue = rest := by
      rw [OrderManager.processOrder_cons hq hr, OrderManager.settle_orderQueue]
    unfold Owned at howned ⊢
    cases howners : t.owners with
    | nil => simp [howners, hq] at howned
    | cons i owners =>
      have hlen : owners.length = rest.length := by simpa [howners, hq] using howned
      have hall : t.placedOrQueued =
          t.accepted ++ (i, pending.order) :: owners.zip (rest.map PendingOrder.order) := by
        simp [placedOrQueued, howners, hq]
      by_cases ha : answer = ""
      · subst ha
        refine ⟨by simp [step, hnext, hqueue, howners, hlen],
          .dropped (x := (i, pending.order)) ?_ ?_ (by simp [hnext])⟩
        · simp [hall]
        · rw [hall, List.eraseIdx_append_of_length_le (Nat.le_refl _), Nat.sub_self]
          simp [step, hnext, hqueue, howners, placedOrQueued]
      · refine ⟨by simp [step, hnext, hqueue, howners, hlen], .kept ?_ (fun _ => ha)⟩
        rw [hall]
        simp [step, hnext, hqueue, howners, ha, placedOrQueued]

/-! ## A turn of a strategy -/

section Turn

variable {t : Terminal} {i : Nat} {strategy : LiveStrategy} {turn : Turn}

/-- A turn that emits nothing. -/
theorem step_turn_quiet (hi : t.strategies[i]? = some strategy)
    (hvalid : (strategy.generateSignal turn.tick turn.clock).1.valid = false) :
    t.step (.turn i turn) =
      { t with strategies := t.strategies.set i (strategy.generateSignal turn.tick turn.clock).2 } := by
  simp [step, hi, hvalid]

/-- A turn that emits one order: it joins the queued ones if breaker and risk check let it. -/
theorem step_turn_order {order : Order} (howned : t.Owned) (hi : t.strategies[i]? = some strategy)
    (hvalid : (strategy.generateSignal turn.tick turn.clock).1.valid = true)
    (horders : (strategy.generateSignal turn.tick turn.clock).1.orders = [order]) :
    let t' := t.step (.turn i turn)
    t'.strategies = t.strategies.set i (strategy.generateSignal turn.tick turn.clock).2 ∧ t'.Owned ∧
      ∃ id, t'.placedOrQueued = t.placedOrQueued ++
        if (t.manager.breaker.canTrade turn.now).1 && turn.approve then
          [(i, { order with clientOrderId := id })]
        else [] := by
  intro t'
  have hqueue := t.manager.processSignal_queue_single (fun _ _ _ _ => turn.approve) hvalid horders
    turn.now turn.balance turn.timestamp
  unfold Owned at howned ⊢
  refine ⟨?_, ?_, OrderManager.clientOrderId (t.manager.counter + 1), ?_⟩
  · simp [t', step, hi, hvalid]
  · simp only [t', step, hi, hvalid, hqueue, ite_true]
    split <;> simp [howned]
  · simp only [t', step, hi, hvalid, hqueue, ite_true, placedOrQueued]
    split
    · simp [howned, List.zip_append]
    · simp

end Turn

/-! ## Flags that agree with the orders, and flags that never will -/

/-- The flags of a symbol next to its placed and queued orders: flat without orders, or in position
with one BUY. -/
inductive Covered (p : PositionState) (orders : List (Nat × Order)) : Prop
  | flat (inPosition : p.inPosition = false) (pendingExit : p.pendingExit = false)
      (none : orders = [])
  | bought {x : Nat × Order} (inPosition : p.inPosition = true)
      (pendingExit : p.pendingExit = false) (one : orders = [x]) (isBuy : x.2.isBuy = true)
      (pos : 0 < x.2.quantity)

theorem Covered.flags {p p' : PositionState} {orders : List (Nat × Order)} (h : Covered p orders)
    (hin : p'.inPosition = p.inPosition) (hpend : p'.pendingExit = p.pendingExit) :
    Covered p' orders := by
  cases h with
  | flat inPosition pendingExit none =>
    exact .flat (hin.trans inPosition) (hpend.trans pendingExit) none
  | bought inPosition pendingExit one isBuy pos =>
    exact .bought (hin.trans inPosition) (hpend.trans pendingExit) one isBuy pos

/-- Every symbol of every strategy is covered. -/
structure Tracked (t : Terminal) : Prop where
  owned : t.Owned
  owner_lt : ∀ x ∈ t.placedOrQueued, x.1 < t.strategies.length
  covered : ∀ i strategy, t.strategies[i]? = some strategy → ∀ symbol,
    Covered (strategy.position symbol) (t.ordersOf i symbol)

/-- Some symbol can no longer be covered: its exit is pending, or it is in position and nothing that
was bought for it is placed or queued. -/
structure Stuck (t : Terminal) : Prop where
  owned : t.Owned
  stuck : ∃ i strategy symbol, t.strategies[i]? = some strategy ∧
    ((strategy.position symbol).pendingExit = true ∨
      (strategy.position symbol).inPosition = true ∧
        ∀ x ∈ t.ordersOf i symbol, x.2.signed ≤ 0)

theorem netAccepted_eq {t : Terminal} (h : t.Quiescent) (i : Nat) (symbol : String) :
    t.netAccepted i symbol = ((t.ordersOf i symbol).map (·.2.signed)).sum := by
  rw [netAccepted, ordersOf, placedOrQueued_of_quiescent h]

theorem Tracked.flagsTrack {t : Terminal} (h : Tracked t) (hq : t.Quiescent) : t.FlagsTrack := by
  intro i strategy hi symbol
  rw [netAccepted_eq hq]
  cases h.covered i strategy hi symbol with
  | flat inPosition pendingExit none => simp [inPosition, pendingExit, none]
  | bought inPosition pendingExit one isBuy pos =>
    simpa [inPosition, pendingExit, one, Order.signed, isBuy] using pos

theorem Stuck.not_flagsTrack {t : Terminal} (h : Stuck t) (hq : t.Quiescent) :
    ¬ t.FlagsTrack := by
  obtain ⟨i, strategy, symbol, hi, hstuck⟩ := h.stuck
  intro htrack
  obtain ⟨hpend, hin⟩ := htrack i strategy hi symbol
  rcases hstuck with hpend' | ⟨hin', hsigned⟩
  · rw [hpend] at hpend'
    cases hpend'
  · have hpos := hin.1 hin'
    rw [netAccepted_eq hq] at hpos
    have hle := List.sum_le_card_nsmul ((t.ordersOf i symbol).map (·.2.signed)) 0 (by
      intro v hv
      obtain ⟨x, hx, rfl⟩ := List.mem_map.1 hv
      exact hsigned x hx)
    rw [nsmul_zero] at hle
    linarith

theorem tracked_start (params : List StrategyParams) (limits : Limits) (breaker : CircuitBreaker) :
    Tracked (start params limits breaker) := by
  refine ⟨rfl, by simp [start, placedOrQueued], fun i strategy hi symbol => ?_⟩
  obtain ⟨param, -, rfl⟩ : ∃ param, params[i]? = some param ∧ LiveStrategy.create param = strategy := by
    simpa [start] using hi
  exact .flat (by simp) (by simp) (by simp [start, ordersOf, placedOrQueued])

/-! ### Passes of the processor -/

section Process

variable {t : Terminal} {answer : String} {latency : Nat}

theorem Tracked.step_process (h : Tracked t) (hguard : NeedsNoCallback t (.process answer latency)) :
    Tracked (t.step (.process answer latency)) := by
  obtain ⟨howned, hpassed⟩ := Terminal.step_process h.owned answer latency
  cases hpassed with
  | dropped _ _ lost => exact absurd hguard lost
  | kept same _ =>
    refine ⟨howned, by simpa [same] using h.owner_lt, fun i strategy hi symbol => ?_⟩
    rw [step_process_strategies] at hi
    rw [ordersOf, same]
    exact h.covered i strategy hi symbol

/-- A refused BUY stays in position. -/
theorem Tracked.step_process_refused (h : Tracked t)
    (hguard : ¬ NeedsNoCallback t (.process answer latency)) :
    Stuck (t.step (.process answer latency)) := by
  obtain ⟨howned, hpassed⟩ := Terminal.step_process h.owned answer latency
  refine ⟨howned, ?_⟩
  cases hpassed with
  | kept _ taken => exact absurd taken hguard
  | @dropped x refused rest _ =>
    obtain ⟨i, order⟩ := x
    have hmem : (i, order) ∈ t.placedOrQueued := List.mem_of_getElem? refused
    obtain ⟨strategy, hi⟩ : ∃ strategy, t.strategies[i]? = some strategy :=
      ⟨_, List.getElem?_eq_getElem (h.owner_lt _ hmem)⟩
    have hown : (i, order) ∈ t.ordersOf i order.symbol := List.mem_filter.2 ⟨hmem, by simp⟩
    refine ⟨i, strategy, order.symbol, by rw [step_process_strategies, hi], .inr ?_⟩
    cases h.covered i strategy hi order.symbol with
    | flat _ _ none => simp [none] at hown
    | bought inPosition _ one _ _ =>
      have hnone := (filter_eraseIdx_of_pos refused (by simp)
        (by rw [← ordersOf, one]; simp :
          (t.placedOrQueued.filter fun x => x.1 = i ∧ x.2.symbol = order.symbol).length ≤ 1)).2
      rw [ordersOf, rest, hnone]
      exact ⟨inPosition, by simp⟩

theorem Stuck.step_process (h : Stuck t) : Stuck (t.step (.process answer latency)) := by
  obtain ⟨howned, hpassed⟩ := Terminal.step_process h.owned answer latency
  obtain ⟨i, strategy, symbol, hi, hstuck⟩ := h.stuck
  refine ⟨howned, i, strategy, symbol, by rw [step_process_strategies, hi], ?_⟩
  refine hstuck.imp_right fun ⟨hin, hsigned⟩ => ⟨hin, fun x hx => hsigned x ?_⟩
  cases hpassed with
  | kept same _ => rwa [ordersOf, same] at hx
  | dropped _ rest _ =>
    rw [ordersOf, rest] at hx
    exact List.Sublist.mem hx ((List.eraseIdx_sublist _ _).filter _)

end Process

/-! ### Turns of a strategy -/

section Turn

variable {t : Terminal} {i : Nat} {turn : Turn}

theorem ordersOf_append {t t' : Terminal} {new : List (Nat × Order)}
    (h : t'.placedOrQueued = t.placedOrQueued ++ new) (j : Nat) (symbol : String) :
    t'.ordersOf j symbol =
      t.ordersOf j symbol ++ new.filter fun x => x.1 = j ∧ x.2.symbol = symbol := by
  rw [ordersOf, h, List.filter_append]
  rfl

/-- What a turn of strategy `i` on a tick of `symbol` leaves alone: the other strategies, and the
orders of every other strategy or symbol. -/
structure TurnFrame (t t' : Terminal) (i : Nat) (symbol : String) (next : LiveStrategy) : Prop where
  owned : t'.Owned
  strategies : t'.strategies = t.strategies.set i next
  owners : ∀ x ∈ t'.placedOrQueued, x ∈ t.placedOrQueued ∨ x.1 = i
  others : ∀ j x, j ≠ i ∨ x ≠ symbol → t'.ordersOf j x = t.ordersOf j x

theorem step_turn_frame (turn : Turn) {strategy : LiveStrategy} (howned : t.Owned)
    (hi : t.strategies[i]? = some strategy) :
    TurnFrame t (t.step (.turn i turn)) i turn.tick.symbol
      (strategy.generateSignal turn.tick turn.clock).2 := by
  have emitted : ∀ order : Order, order.symbol = turn.tick.symbol →
      (strategy.generateSignal turn.tick turn.clock).1.valid = true →
      (strategy.generateSignal turn.tick turn.clock).1.orders = [order] →
      TurnFrame t (t.step (.turn i turn)) i turn.tick.symbol
        (strategy.generateSignal turn.tick turn.clock).2 := by
    intro order hsymbol hvalid horders
    obtain ⟨hstrategies, howned', id, hplaced⟩ := step_turn_order howned hi hvalid horders
    refine ⟨howned', hstrategies, fun x hx => ?_, fun j x hne => ?_⟩
    · rw [hplaced, List.mem_append] at hx
      refine hx.imp_right fun hx => ?_
      split at hx
      · rw [List.mem_singleton.1 hx]
      · cases hx
    · rw [ordersOf_append hplaced]
      split
      · rcases hne with hj | hs
        · simp [Ne.symm hj]
        · simp [hsymbol, Ne.symm hs]
      · simp
  cases (strategy.generateSignal_positions turn.tick turn.clock).here with
  | quiet _ valid _ _ _ =>
    rw [step_turn_quiet hi valid]
    exact ⟨howned, rfl, fun _ => .inl, fun _ _ _ => rfl⟩
  | exit orders valid sized _ _ _ _ _ => exact emitted _ sized.symbol valid orders
  | entry orders valid sized _ _ _ _ => exact emitted _ sized.symbol valid orders

/-- The orders of the strategy and the ticked symbol gain the emitted order if it is queued. -/
theorem step_turn_here {strategy : LiveStrategy} {order : Order} (howned : t.Owned)
    (hi : t.strategies[i]? = some strategy) (hsymbol : order.symbol = turn.tick.symbol)
    (hvalid : (strategy.generateSignal turn.tick turn.clock).1.valid = true)
    (horders : (strategy.generateSignal turn.tick turn.clock).1.orders = [order]) :
    ∃ id, (t.step (.turn i turn)).ordersOf i turn.tick.symbol =
      t.ordersOf i turn.tick.symbol ++
        if (t.manager.breaker.canTrade turn.now).1 && turn.approve then
          [(i, { order with clientOrderId := id })]
        else [] := by
  obtain ⟨-, -, id, hplaced⟩ := step_turn_order howned hi hvalid horders
  refine ⟨id, ?_⟩
  rw [ordersOf_append hplaced]
  split <;> simp [hsymbol]

/-- The strategies after a turn. -/
theorem getElem?_set_some {strategies : List LiveStrategy} {strategy strategy' next : LiveStrategy}
    {j : Nat} (hi : strategies[i]? = some strategy)
    (hj : (strategies.set i next)[j]? = some strategy') :
    j = i ∧ strategy' = next ∨ j ≠ i ∧ strategies[j]? = some strategy' := by
  by_cases hji : j = i
  · subst hji
    rw [List.getElem?_set_self (List.getElem?_eq_some_iff.1 hi).1] at hj
    exact .inl ⟨rfl, (Option.some.inj hj).symm⟩
  · rw [List.getElem?_set_ne (Ne.symm hji)] at hj
    exact .inr ⟨hji, hj⟩

theorem Tracked.step_turn (h : Tracked t)
    (hguard : NeedsNoCallback t (.turn i turn)) :
    Tracked (t.step (.turn i turn)) := by
  cases hi : t.strategies[i]? with
  | none => simpa [step, hi] using h
  | some strategy =>
    have frame := step_turn_frame turn h.owned hi
    obtain ⟨here, others⟩ := strategy.generateSignal_positions turn.tick turn.clock
    have hcovered := h.covered i strategy hi
    refine ⟨frame.owned, fun x hx => ?_, fun j strategy' hj symbol => ?_⟩
    · rw [frame.strategies, List.length_set]
      rcases frame.owners x hx with hx | rfl
      · exact h.owner_lt x hx
      · exact (List.getElem?_eq_some_iff.1 hi).1
    rw [frame.strategies] at hj
    rcases getElem?_set_some hi hj with ⟨rfl, rfl⟩ | ⟨hji, hj⟩
    · by_cases hs : symbol = turn.tick.symbol
      · subst hs
        cases here with
        | quiet _ valid inPosition pendingExit _ =>
          rw [step_turn_quiet hi valid]
          exact (hcovered turn.tick.symbol).flags inPosition pendingExit
        | exit orders _ sized _ _ _ _ _ =>
          have := (hguard strategy hi _ (by rw [orders]; exact List.mem_singleton_self _)).1
          simp [sized.isBuy] at this
        | @entry order orders valid sized flat _ inPosition pendingExit =>
          obtain ⟨hbuy, hpos, happrove, htrade⟩ :=
            hguard strategy hi order (by rw [orders]; exact List.mem_singleton_self _)
          obtain ⟨id, hnew⟩ := step_turn_here h.owned hi sized.symbol valid orders
          cases hcovered turn.tick.symbol with
          | bought hin _ _ _ _ => simp [hin] at flat
          | flat _ _ none =>
            rw [none, htrade] at hnew
            rw [happrove] at hnew
            exact .bought inPosition pendingExit hnew hbuy hpos
      · rw [others symbol hs, frame.others j symbol (.inr hs)]
        exact hcovered symbol
    · rw [frame.others j symbol (.inl hji)]
      exact h.covered j strategy' hj symbol

/-- A SELL, a blocked BUY or a BUY of nothing leaves flags that no order will match. -/
theorem Tracked.step_turn_lost (h : Tracked t)
    (hguard : ¬ NeedsNoCallback t (.turn i turn)) :
    Stuck (t.step (.turn i turn)) := by
  simp only [NeedsNoCallback, not_forall] at hguard
  obtain ⟨strategy, hi, order, horder, hlost⟩ := hguard
  have frame := step_turn_frame turn h.owned hi
  refine ⟨frame.owned, i, _, turn.tick.symbol,
    by rw [frame.strategies, List.getElem?_set_self (List.getElem?_eq_some_iff.1 hi).1], ?_⟩
  cases (strategy.generateSignal_positions turn.tick turn.clock).here with
  | quiet orders _ _ _ _ => simp [orders] at horder
  | exit _ _ _ _ _ _ _ pendingExit => exact .inl pendingExit
  | entry orders valid sized flat _ inPosition _ =>
    rw [orders, List.mem_singleton] at horder
    subst horder
    obtain ⟨id, hnew⟩ := step_turn_here h.owned hi sized.symbol valid orders
    refine .inr ⟨inPosition, fun x hx => ?_⟩
    cases h.covered i strategy hi turn.tick.symbol with
    | bought hin _ _ _ _ => simp [hin] at flat
    | flat _ _ none =>
      rw [hnew, none, List.nil_append] at hx
      split at hx
      · next hpass =>
        rw [Bool.and_eq_true_iff] at hpass
        rw [List.mem_singleton.1 hx]
        simpa [sized.isBuy, hpass.1, hpass.2, Order.signed] using hlost
      · cases hx

/-- A pending exit and a position in the flags survive every turn. -/
theorem Stuck.step_turn (h : Stuck t) :
    Stuck (t.step (.turn i turn)) := by
  cases hi : t.strategies[i]? with
  | none => simpa [step, hi] using h
  | some strategy =>
    have frame := step_turn_frame turn h.owned hi
    obtain ⟨here, others⟩ := strategy.generateSignal_positions turn.tick turn.clock
    obtain ⟨j, strategy', symbol, hj, hstuck⟩ := h.stuck
    refine ⟨frame.owned, j, ?_⟩
    rw [frame.strategies]
    by_cases hji : j = i
    · subst hji
      obtain rfl : strategy = strategy' := Option.some.inj (hi.symm.trans hj)
      refine ⟨_, symbol, List.getElem?_set_self (List.getElem?_eq_some_iff.1 hi).1, ?_⟩
      by_cases hs : symbol = turn.tick.symbol
      · subst hs
        cases here with
        | quiet _ valid inPosition pendingExit _ =>
          rw [inPosition, pendingExit, step_turn_quiet hi valid]
          exact hstuck
        | exit _ _ _ _ _ _ _ pendingExit => exact .inl pendingExit
        | entry _ _ _ flat idle _ _ => simp [flat, idle] at hstuck
      · rw [others symbol hs, frame.others j symbol (.inr hs)]
        exact hstuck
    · refine ⟨strategy', symbol, by rw [List.getElem?_set_ne (Ne.symm hji), hj], ?_⟩
      rw [frame.others j symbol (.inl hji)]
      exact hstuck

end Turn

/-! ## Whole runs -/

/-- A run that ends with an empty queue leaves flags that track the orders exactly if none of its
steps needed a callback. -/
theorem flagsTrack_of_quiescent (params : List StrategyParams) (limits : Limits)
    (breaker : CircuitBreaker) (inputs : List TerminalInput)
    (hq : (run step (start params limits breaker) inputs).Quiescent) :
    (run step (start params limits breaker) inputs).FlagsTrack ↔
      Guarded step NeedsNoCallback (start params limits breaker) inputs := by
  have keep (t : Terminal) (x : TerminalInput) (h : Tracked t) (hguard : NeedsNoCallback t x) :
      Tracked (t.step x) := by
    cases x with
    | turn => exact h.step_turn hguard
    | process => exact h.step_process hguard
  have leave (t : Terminal) (x : TerminalInput) (h : Tracked t) (hguard : ¬ NeedsNoCallback t x) :
      Stuck (t.step x) := by
    cases x with
    | turn => exact h.step_turn_lost hguard
    | process => exact h.step_process_refused hguard
  have stay (t : Terminal) (x : TerminalInput) (h : Stuck t) : Stuck (t.step x) := by
    cases x with
    | turn => exact h.step_turn
    | process => exact h.step_process
  obtain ⟨htracked, hstuck⟩ := run_of_guarded_or_not keep leave stay inputs
    (tracked_start params limits breaker)
  by_cases hguard : Guarded step NeedsNoCallback (start params limits breaker) inputs
  · simp [hguard, (htracked hguard).flagsTrack hq]
  · simp [hguard, (hstuck hguard).not_flagsTrack hq]

/-- **The flags track the orders exactly while no callback is needed.** In every run the flags agree
with the accepted orders at every moment with an empty queue if and only if, up to each such moment,
no strategy emitted a SELL, every BUY was of a positive quantity and passed the breaker and the risk
check, and the exchange accepted every order. -/
theorem flagsTrack_iff_needsNoCallback (params : List StrategyParams) (limits : Limits)
    (breaker : CircuitBreaker) (inputs : List TerminalInput) :
    Throughout step (fun t => t.Quiescent → t.FlagsTrack) (start params limits breaker) inputs ↔
      ∀ ys, ys <+: inputs → (run step (start params limits breaker) ys).Quiescent →
        Guarded step NeedsNoCallback (start params limits breaker) ys :=
  forall₂_congr fun ys _ =>
    forall_congr' fun hq => flagsTrack_of_quiescent params limits breaker ys hq

/-- Forty-nine quiet ticks and a jump to 102: the momentum strategy buys ten shares, which the
default risk limits block for a notional above 1000. -/
def blockedBuy : List TerminalInput :=
  let turn (price : ℚ) : TerminalInput :=
    .turn 0
      { tick := { symbol := "AAPL", price, bid := price, ask := price }
        approve := RiskManager.canSubmitOrder {} (marketOrder "AAPL" price 10 true) 100000 price
        balance := fun _ => 100000 }
  List.replicate 49 (turn 100) ++ [turn 102]

/-- Nobody tells the strategy, so it stays in position with nothing bought. -/
theorem blockedBuy_not_flagsTrack :
    ¬ Throughout step (fun t => t.Quiescent → t.FlagsTrack) (start [.momentum] {} (.new 100000 0))
      blockedBuy := by
  intro h
  have hquiet : (run step (start [.momentum] {} (.new 100000 0)) blockedBuy).Quiescent := by
    unfold Quiescent
    decide +kernel
  have hin : ((run step (start [.momentum] {} (.new 100000 0)) blockedBuy).strategies[0]?.map
      fun strategy => (strategy.position "AAPL").inPosition) = some true := by decide +kernel
  have hnet : (run step (start [.momentum] {} (.new 100000 0)) blockedBuy).netAccepted 0 "AAPL" = 0 := by
    decide +kernel
  obtain ⟨strategy, hstrategy, hin⟩ := Option.map_eq_some_iff.1 hin
  have hpos := (h.last hquiet 0 strategy hstrategy "AAPL").2.1 hin
  rw [hnet] at hpos
  exact lt_irrefl 0 hpos

end Terminal

end TradingTerminal
