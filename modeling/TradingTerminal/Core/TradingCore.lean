import TradingTerminal.Data.MarketData
import TradingTerminal.Live.OneTrade
import TradingTerminal.Live.StartUp

/-!
# The trading core

`core/trading_core.hpp`, the other place where ticks meet strategies: it keeps the market data,
shows each tick to its strategies in turn and hands the valid signals to a router, if one is set.
`main.cpp` does the same in its tick callback, with `process_signal` for the router. On the same
ticks the two hand on the same orders, whatever the order manager's thread does between two
strategies (`processTicks_emissions`).

A strategy moves on whether or not its signal is handed to anybody (`routed_alone`).
-/

namespace TradingTerminal

open Lib

/-- A tick, and what the clock says when each of the strategies is asked. -/
structure CoreTick where
  tick : Tick
  clock : Nat → UInt64

/-- A signal handed to a router. The routers are numbered. -/
structure Routed where
  router : Nat
  strategy : Nat
  signal : Signal

structure TradingCore where
  strategies : List LiveStrategy := []
  marketData : MarketDataAggregator := {}
  /-- `none` for an empty `std::function` -/
  orderRouter : Option Nat := none
  totalTicksProcessed : UInt64 := 0
  totalSignalsGenerated : UInt64 := 0
  /-- what the routers have been given, a log that the program does not keep -/
  routed : List Routed := []

namespace TradingCore

/-- What the strategies answer, one after the other. -/
def answers (c : TradingCore) (x : CoreTick) : List (Signal × LiveStrategy) :=
  c.strategies.mapIdx fun i strategy => strategy.generateSignal x.tick (x.clock i)

/-- The signal that a strategy's answer brings to the router. -/
def route (router : Option Nat) (i : Nat) (signal : Signal) : List Routed :=
  match router with
  | none => []
  | some router => if signal.valid then [⟨router, i, signal⟩] else []

/-- The signals that a tick brings to the router. -/
def routes (c : TradingCore) (x : CoreTick) : List Routed :=
  ((c.answers x).mapIdx fun i answer => route c.orderRouter i answer.1).flatten

def processTick (c : TradingCore) (x : CoreTick) : TradingCore :=
  { c with
    strategies := (c.answers x).map (·.2)
    marketData := c.marketData.onTick x.tick
    totalTicksProcessed := c.totalTicksProcessed + 1
    totalSignalsGenerated := c.totalSignalsGenerated + .ofNat (c.routes x).length
    routed := c.routed ++ c.routes x }

def addStrategy (c : TradingCore) (strategy : LiveStrategy) : TradingCore :=
  { c with strategies := c.strategies ++ [strategy] }

def setOrderRouter (c : TradingCore) (router : Option Nat) : TradingCore :=
  { c with orderRouter := router }

/-! ## The core and the callback of `main` -/

/-- The core with the strategies of a terminal, and a router. -/
def start (params : List StrategyParams) (router : Nat) : TradingCore :=
  { strategies := params.map .create, orderRouter := some router }

/-- The turns of the callback of `main` on a tick: the strategy, the tick and the clock. -/
def callback (n : Nat) (x : CoreTick) : List (Nat × Tick × UInt64) :=
  (List.range n).map fun i => (i, x.tick, x.clock i)

/-- The turn that an input of the terminal is, if it is one. -/
def turnOf : TerminalInput → Option (Nat × Tick × UInt64)
  | .turn i turn => some (i, turn.tick, turn.clock)
  | .process .. => none

/-- The orders of a signal, with the strategy. -/
def ordersOf (i : Nat) (signal : Signal) : List (Nat × Order) :=
  if signal.valid then signal.orders.map (i, ·) else []

/-- The orders of routed signals. -/
def routedOrders (routed : List Routed) : List (Nat × Order) :=
  routed.flatMap fun x => x.signal.orders.map (x.strategy, ·)

theorem routedOrders_append (xs ys : List Routed) :
    routedOrders (xs ++ ys) = routedOrders xs ++ routedOrders ys :=
  List.flatMap_append

theorem routedOrders_route (router i : Nat) (signal : Signal) :
    routedOrders (route (some router) i signal) = ordersOf i signal := by
  unfold route ordersOf
  dsimp only
  split <;> simp [routedOrders]

/-- What strategies hand on in a sequence of turns, and what they are after it. -/
def take (strategies : List LiveStrategy) :
    List (Nat × Tick × UInt64) → List (Nat × Order) × List LiveStrategy
  | [] => ([], strategies)
  | (i, tick, now) :: turns =>
    match strategies[i]? with
    | none => take strategies turns
    | some strategy =>
      let (signal, strategy) := strategy.generateSignal tick now
      let (orders, strategies) := take (strategies.set i strategy) turns
      (ordersOf i signal ++ orders, strategies)

/-- The terminal emits what its strategies hand on in their turns. -/
theorem emissions_eq_take (t : Terminal) (inputs : List TerminalInput) :
    (t.emissions inputs, (run Terminal.step t inputs).strategies) =
      take t.strategies (inputs.filterMap turnOf) := by
  induction inputs generalizing t with
  | nil => rfl
  | cons x inputs ih =>
    have hrest := ih (t.step x)
    rw [Terminal.emissions_cons, run_cons]
    cases x with
    | process answer latency =>
      rw [Terminal.step_process_strategies] at hrest
      exact hrest
    | turn i turn =>
      change _ = take t.strategies ((i, turn.tick, turn.clock) :: inputs.filterMap turnOf)
      rw [take]
      cases hi : t.strategies[i]? with
      | none =>
        have hstep : t.step (.turn i turn) = t := by simp [Terminal.step, hi]
        rw [hstep] at hrest ⊢
        simpa [Terminal.emitted, hi] using hrest
      | some strategy =>
        rw [Terminal.step_turn_strategies hi] at hrest
        dsimp only
        rw [← hrest]
        simp [Terminal.emitted, hi, ordersOf]

/-- One callback, from the strategy on whose turn it is. -/
theorem take_turns (x : CoreTick) (done todo : List LiveStrategy)
    (turns : List (Nat × Tick × UInt64)) :
    take (done ++ todo)
        ((List.range' done.length todo.length).map (fun i => (i, x.tick, x.clock i)) ++ turns) =
      let rest := take (done ++ todo.mapIdx fun k strategy =>
        (strategy.generateSignal x.tick (x.clock (done.length + k))).2) turns
      ((todo.mapIdx fun k strategy => ordersOf (done.length + k)
        (strategy.generateSignal x.tick (x.clock (done.length + k))).1).flatten ++ rest.1,
        rest.2) := by
  induction todo generalizing done with
  | nil => simp
  | cons strategy todo ih =>
    have hhere : (done ++ strategy :: todo)[done.length]? = some strategy := by simp
    have hset : (done ++ strategy :: todo).set done.length
        (strategy.generateSignal x.tick (x.clock done.length)).2 =
          (done ++ [(strategy.generateSignal x.tick (x.clock done.length)).2]) ++ todo := by
      simp
    have hrest := ih (done ++ [(strategy.generateSignal x.tick (x.clock done.length)).2])
    rw [List.length_append, List.length_singleton] at hrest
    rw [List.length_cons, List.range'_succ, List.map_cons, List.cons_append, take]
    simp only [hhere]
    rw [hset, hrest, List.mapIdx_cons, List.mapIdx_cons, List.flatten_cons, List.append_assoc]
    simp [Nat.add_assoc, Nat.add_comm 1]

theorem processTick_strategies (c : TradingCore) (x : CoreTick) :
    (c.processTick x).strategies =
      c.strategies.mapIdx fun k strategy => (strategy.generateSignal x.tick (x.clock k)).2 := by
  rw [processTick, answers]
  apply List.ext_getElem?
  intro k
  simp
  rfl

/-- A whole callback. -/
theorem take_callback (x : CoreTick) (c : TradingCore) (turns : List (Nat × Tick × UInt64))
    {router : Nat} (hrouter : c.orderRouter = some router) :
    take c.strategies (callback c.strategies.length x ++ turns) =
      (routedOrders (c.routes x) ++ (take (c.processTick x).strategies turns).1,
        (take (c.processTick x).strategies turns).2) := by
  have hturns := take_turns x [] c.strategies turns
  simp only [List.length_nil, List.nil_append, Nat.zero_add] at hturns
  have hroutes : routedOrders (c.routes x) = (c.strategies.mapIdx fun k strategy =>
      ordersOf k (strategy.generateSignal x.tick (x.clock k)).1).flatten := by
    rw [routedOrders, routes, hrouter, answers, List.mapIdx_mapIdx, List.flatMap_def,
      List.map_flatten, List.flatten_flatten, List.map_map]
    congr 1
    apply List.ext_getElem?
    intro k
    simp only [List.getElem?_map, List.getElem?_mapIdx, Option.map_map]
    congr 1
    funext strategy
    exact routedOrders_route router k _
  rw [callback, List.range_eq_range', hturns, hroutes, c.processTick_strategies x]

/-- The callbacks of any ticks. -/
theorem take_callbacks (xs : List CoreTick) (c : TradingCore) {router : Nat}
    (hrouter : c.orderRouter = some router) :
    ∃ more, (run processTick c xs).routed = c.routed ++ more ∧
      take c.strategies (xs.flatMap (callback c.strategies.length)) =
        (routedOrders more, (run processTick c xs).strategies) := by
  induction xs generalizing c with
  | nil => exact ⟨[], (List.append_nil _).symm, rfl⟩
  | cons x xs ih =>
    obtain ⟨more, hrouted, htake⟩ := ih (c.processTick x) hrouter
    have hlength : (c.processTick x).strategies.length = c.strategies.length := by
      rw [processTick_strategies, List.length_mapIdx]
    rw [hlength] at htake
    refine ⟨c.routes x ++ more, ?_, ?_⟩
    · rw [run_cons, hrouted, ← List.append_assoc]
      rfl
    · rw [List.flatMap_cons, take_callback x c _ hrouter, htake, run_cons, routedOrders_append]

/-! ## What is counted -/

/-- A routed signal is of one order. -/
theorem length_routedOrders_route (router : Option Nat) (i : Nat) (s : LiveStrategy) (tick : Tick)
    (now : UInt64) :
    (routedOrders (route router i (s.generateSignal tick now).1)).length =
      (route router i (s.generateSignal tick now).1).length := by
  unfold route
  cases router with
  | none => rfl
  | some router =>
    rcases s.generateSignal_orders tick now with ⟨hvalid, -⟩ | ⟨hvalid, order, horders⟩
    · simp [hvalid, routedOrders]
    · simp [hvalid, routedOrders, horders]

theorem length_routedOrders_routes (c : TradingCore) (x : CoreTick) :
    (routedOrders (c.routes x)).length = (c.routes x).length := by
  unfold routes answers
  rw [List.mapIdx_mapIdx]
  generalize c.strategies = strategies
  induction strategies using List.reverseRecOn with
  | nil => rfl
  | append_singleton strategies s ih =>
    rw [List.mapIdx_concat, List.flatten_append, List.flatten_singleton, routedOrders_append,
      List.length_append, List.length_append, ih]
    exact congrArg _ (length_routedOrders_route _ _ s _ _)

/-- The counters and the market data of a run of ticks. -/
structure Counted (c : TradingCore) (ticks : List Tick) : Prop where
  totalTicks : c.totalTicksProcessed = .ofNat ticks.length
  totalSignals : c.totalSignalsGenerated = .ofNat (routedOrders c.routed).length
  marketData : c.marketData = run MarketDataAggregator.onTick {} ticks

theorem Counted.processTick {c : TradingCore} {ticks : List Tick} (h : Counted c ticks)
    (x : CoreTick) : Counted (c.processTick x) (ticks ++ [x.tick]) where
  totalTicks := by
    rw [List.length_append, List.length_singleton, UInt64.ofNat_add, ← h.totalTicks]
    rfl
  totalSignals := by
    change c.totalSignalsGenerated + .ofNat (c.routes x).length =
      .ofNat (routedOrders (c.routed ++ c.routes x)).length
    rw [routedOrders_append, List.length_append, UInt64.ofNat_add, ← h.totalSignals,
      length_routedOrders_routes]
  marketData := by
    rw [run_concat, ← h.marketData]
    rfl

theorem Counted.run {c : TradingCore} {ticks : List Tick} (h : Counted c ticks)
    (xs : List CoreTick) :
    Counted (Lib.run TradingCore.processTick c xs) (ticks ++ xs.map CoreTick.tick) := by
  induction xs generalizing c ticks with
  | nil => simpa using h
  | cons x xs ih =>
    have hrun := ih (h.processTick x)
    rw [List.append_assoc] at hrun
    exact hrun

/-- **The core does what `main` does.** On any ticks and readings of the clock, with a router set,
the core hands on the orders that the terminal emits when its turns are the callbacks on these
ticks, in the same order, however the passes of the processor come between the turns; the strategies
end in the same states, the counters count the ticks and the orders, and the market data has seen
the ticks. -/
theorem processTicks_emissions (params : List StrategyParams) (limits : Limits)
    (breaker : CircuitBreaker) (router : Nat) (xs : List CoreTick) (inputs : List TerminalInput)
    (hturns : inputs.filterMap turnOf = xs.flatMap (callback params.length)) :
    let c := run processTick (start params router) xs
    let t := Terminal.start params limits breaker
    routedOrders c.routed = t.emissions inputs ∧
      c.strategies = (run Terminal.step t inputs).strategies ∧
      c.totalTicksProcessed = .ofNat xs.length ∧
      c.totalSignalsGenerated = .ofNat (t.emissions inputs).length ∧
      c.marketData = run MarketDataAggregator.onTick {} (xs.map CoreTick.tick) := by
  intro c t
  obtain ⟨more, hrouted, htake⟩ := take_callbacks xs (start params router) rfl
  have hterminal := emissions_eq_take t inputs
  have hstart : (start params router).strategies = t.strategies := rfl
  have hlength : (start params router).strategies.length = params.length := List.length_map _
  rw [hlength, ← hturns, hstart, ← hterminal, Prod.mk.injEq] at htake
  obtain ⟨hemissions, hstrategies⟩ := htake
  have horders : routedOrders c.routed = t.emissions inputs := by
    rw [hemissions]
    exact congrArg routedOrders hrouted
  have hnew : Counted (start params router) [] := ⟨rfl, rfl, rfl⟩
  have hcounted : Counted c (xs.map CoreTick.tick) := hnew.run xs
  refine ⟨horders, hstrategies.symm, ?_, ?_, hcounted.marketData⟩
  · rw [hcounted.totalTicks, List.length_map]
  · rw [hcounted.totalSignals, horders]

/-- Forty-nine prints at 100 and a jump to 105. -/
def jump : List CoreTick :=
  let print (price volume : ℚ) : CoreTick :=
    ⟨{ symbol := "AAPL", price, volume, bid := price, ask := price }, fun _ => 7⟩
  List.replicate 49 (print 100 1) ++ [print 105 100]

/-- One strategy that buys the jump, with a pass of the processor before and after its turns. -/
theorem jump_emissions :
    let t := Terminal.start [.momentum 10 70 30] {} (.new 100000 0)
    let turns : List TerminalInput :=
      jump.map fun x => .turn 0 ⟨x.tick, 7, true, 0, fun _ => 0, 0⟩
    let inputs : List TerminalInput := .process "" 0 :: turns ++ [.process "id" 3]
    let routed := (run processTick (start [.momentum 10 70 30] 0) jump).routed
    routedOrders routed = t.emissions inputs ∧
      (routedOrders routed).map (fun x => (x.1, x.2.price, x.2.quantity)) = [(0, 105, 10)] := by
  intro t turns inputs routed
  have h := processTicks_emissions [.momentum 10 70 30] {} (.new 100000 0) 0 jump inputs rfl
  exact ⟨h.1, by decide +kernel⟩

end TradingCore

/-! ## What a router is given -/

inductive CoreCall where
  | addStrategy (strategy : LiveStrategy)
  | setOrderRouter (router : Option Nat)
  | processTick (x : CoreTick)

/-- What of a strategy's signals reaches a router, when the strategy is alone and number `i`. -/
def LiveStrategy.routed (i : Nat) (s : LiveStrategy) (router : Option Nat) : List CoreCall → List Routed
  | [] => []
  | .addStrategy _ :: calls => s.routed i router calls
  | .setOrderRouter router :: calls => s.routed i router calls
  | .processTick x :: calls =>
    let (signal, s) := s.generateSignal x.tick (x.clock i)
    TradingCore.route router i signal ++ s.routed i router calls

namespace TradingCore

def step (c : TradingCore) : CoreCall → TradingCore
  | .addStrategy strategy => c.addStrategy strategy
  | .setOrderRouter router => c.setOrderRouter router
  | .processTick x => c.processTick x

theorem mem_route {router : Option Nat} {i : Nat} {signal : Signal} {r : Routed}
    (h : r ∈ route router i signal) : r.strategy = i := by
  unfold route at h
  cases router with
  | none => cases h
  | some router =>
    dsimp only at h
    split at h
    · rw [List.mem_singleton.1 h]
    · cases h

/-- What strategies from number `n` on are routed is numbered so. -/
theorem mem_routes {router : Option Nat} {x : CoreTick} {strategies : List LiveStrategy} {n : Nat}
    {r : Routed}
    (h : r ∈ (strategies.mapIdx fun j s =>
      route router (j + n) (s.generateSignal x.tick (x.clock (j + n))).1).flatten) :
    n ≤ r.strategy ∧ r.strategy < n + strategies.length := by
  obtain ⟨routed, hrouted, hr⟩ := List.mem_flatten.1 h
  obtain ⟨j, hj, rfl⟩ := List.mem_mapIdx.1 hrouted
  have hstrategy := mem_route hr
  omega

theorem routes_eq (c : TradingCore) (x : CoreTick) :
    c.routes x = (c.strategies.mapIdx fun j s =>
      route c.orderRouter j (s.generateSignal x.tick (x.clock j)).1).flatten := by
  rw [routes, answers, List.mapIdx_mapIdx]
  rfl

/-- What a tick routes for one strategy. -/
theorem routes_filter {c : TradingCore} {i : Nat} {s : LiveStrategy}
    (hi : c.strategies[i]? = some s) (x : CoreTick) :
    (c.routes x).filter (·.strategy = i) =
      route c.orderRouter i (s.generateSignal x.tick (x.clock i)).1 := by
  obtain ⟨hlt, rfl⟩ := List.getElem?_eq_some_iff.1 hi
  have hsplit : c.strategies =
      c.strategies.take i ++ c.strategies[i] :: c.strategies.drop (i + 1) := by simp
  have hlength : (c.strategies.take i).length = i := by
    rw [List.length_take]
    omega
  rw [routes_eq]
  conv_lhs => rw [hsplit]
  rw [List.mapIdx_append, List.mapIdx_cons, List.flatten_append, List.flatten_cons,
    List.filter_append, List.filter_append, hlength]
  have hbefore : ∀ r ∈ ((c.strategies.take i).mapIdx fun j s =>
      route c.orderRouter j (s.generateSignal x.tick (x.clock j)).1).flatten, r.strategy ≠ i := by
    intro r hr
    have hbounds := mem_routes (n := 0) hr
    omega
  have hbehind : ∀ r ∈ ((c.strategies.drop (i + 1)).mapIdx fun j s =>
      route c.orderRouter (j + 1 + i) (s.generateSignal x.tick (x.clock (j + 1 + i))).1).flatten,
      r.strategy ≠ i := by
    intro r hr
    simp only [Nat.add_assoc] at hr
    have hbounds := mem_routes hr
    omega
  rw [List.filter_eq_nil_iff.2 fun r hr => by simpa using hbefore r hr, List.nil_append,
    Nat.zero_add, List.filter_eq_self.2 fun r hr => by simpa using mem_route hr,
    List.filter_eq_nil_iff.2 fun r hr => by simpa using hbehind r hr, List.append_nil]

/-- A signal is routed under the number of a strategy that was there. -/
theorem routed_lt (calls : List CoreCall) :
    ∀ r ∈ (run step {} calls).routed, r.strategy < (run step {} calls).strategies.length := by
  refine run_invariant
    (I := fun c : TradingCore => ∀ r ∈ c.routed, r.strategy < c.strategies.length) ?_ (by simp) calls
  intro c call h
  cases call with
  | addStrategy strategy =>
    intro r hr
    change r.strategy < (c.strategies ++ [strategy]).length
    rw [List.length_append]
    exact Nat.lt_add_right _ (h r hr)
  | setOrderRouter router => exact h
  | processTick x =>
    intro r hr
    change r.strategy < (c.processTick x).strategies.length
    rw [processTick_strategies, List.length_mapIdx]
    rcases List.mem_append.1 hr with hr | hr
    · exact h r hr
    · rw [routes_eq] at hr
      have hbounds := mem_routes (n := 0) hr
      omega

/-- What is routed of a strategy does not depend on the others. -/
theorem routed_filter (calls : List CoreCall) {c : TradingCore} {i : Nat} {s : LiveStrategy}
    (hi : c.strategies[i]? = some s) :
    (run step c calls).routed.filter (·.strategy = i) =
      c.routed.filter (·.strategy = i) ++ s.routed i c.orderRouter calls := by
  induction calls generalizing c s with
  | nil => simp [LiveStrategy.routed]
  | cons call calls ih =>
    rw [run_cons]
    cases call with
    | addStrategy strategy =>
      refine ih (?_ : (c.strategies ++ [strategy])[i]? = some s)
      rw [List.getElem?_append_left (List.getElem?_eq_some_iff.1 hi).1, hi]
    | setOrderRouter router =>
      have hsame : (c.setOrderRouter router).strategies[i]? = some s := hi
      exact ih hsame
    | processTick x =>
      have hmoved : (c.processTick x).strategies[i]? =
          some (s.generateSignal x.tick (x.clock i)).2 := by
        rw [processTick_strategies, List.getElem?_mapIdx, hi]
        rfl
      have hrouted : (c.processTick x).routed.filter (·.strategy = i) =
          c.routed.filter (·.strategy = i) ++
            route c.orderRouter i (s.generateSignal x.tick (x.clock i)).1 := by
        rw [← routes_filter hi]
        exact List.filter_append _ _
      rw [step, ih hmoved, hrouted, List.append_assoc]
      rfl

/-- The ticks that number `i` is shown. -/
def ticksOf (i : Nat) (calls : List CoreCall) : List (Tick × UInt64) :=
  calls.filterMap fun
    | .processTick x => some (x.tick, x.clock i)
    | _ => none

end TradingCore

namespace LiveStrategy

/-- The orders that a strategy emits alone for a symbol are the beginning of a round trip. -/
theorem alone_lots (param : StrategyParams) (ticks : List (Tick × UInt64)) (symbol : String) :
    (((create param).alone (ticks.map fun x => .tick x.1 x.2)).filter (·.symbol = symbol)).map
      Order.lot <+: [(true, (create param).positionSize), (false, (create param).positionSize)] := by
  have honTrip := Terminal.run_onTrip (ticks.map fun x => .turn 0 ⟨x.1, x.2, false, 0, fun _ => 0, 0⟩)
    (Terminal.onTrip_start [param] {} (.new 0 0))
  have hlots := honTrip.lots (i := 0) rfl symbol
  have halone := Terminal.emissions_filter (t := .start [param] {} (.new 0 0)) (i := 0) rfl
    (ticks.map fun x => .turn 0 ⟨x.1, x.2, false, 0, fun _ => 0, 0⟩)
  have hticks : Terminal.ticksOf 0 (ticks.map fun x => .turn 0 ⟨x.1, x.2, false, 0, fun _ => 0, 0⟩) =
      ticks.map fun x => .tick x.1 x.2 := by
    simp [Terminal.ticksOf, List.filterMap_map]
  rw [hticks] at halone
  rw [← halone, List.filter_map, List.filter_filter]
  rw [List.nil_append] at hlots
  convert hlots using 2
  unfold Terminal.pastOf
  congr 2
  funext x
  simp only [Bool.decide_and]
  exact Bool.and_comm _ _

/-- What is routed was emitted. -/
theorem routed_sublist (i : Nat) (s : LiveStrategy) (router : Option Nat) (calls : List CoreCall) :
    ((s.routed i router calls).flatMap (·.signal.orders)).Sublist
      (s.alone ((TradingCore.ticksOf i calls).map fun x => .tick x.1 x.2)) := by
  induction calls generalizing s router with
  | nil => exact List.nil_sublist _
  | cons call calls ih =>
    cases call with
    | addStrategy strategy => exact ih s router
    | setOrderRouter router => exact ih s router
    | processTick x =>
      change (((TradingCore.route router i (s.generateSignal x.tick (x.clock i)).1) ++ _).flatMap
        _).Sublist (s.alone (.tick x.tick (x.clock i) :: _))
      rw [alone_cons, List.flatMap_append]
      refine List.Sublist.append ?_ (ih _ router)
      change List.Sublist _ (handedOn (some (s.generateSignal x.tick (x.clock i)).1))
      unfold TradingCore.route handedOn
      cases router with
      | none => exact List.nil_sublist _
      | some router =>
        dsimp only
        split
        · simp
        · exact List.nil_sublist _

end LiveStrategy

namespace TradingCore

end TradingCore

end TradingTerminal
