import TradingTerminal.Live.Terminal
import TradingTerminal.Strategies.SymbolIndependence

/-!
# One trade for each symbol

Nothing in `main.cpp` calls `on_order_filled` or `on_order_rejected`, so a strategy that has emitted
a BUY stays in position, and one that has emitted a SELL stays in its pending exit. In the life of
the process a strategy emits at most one BUY and then at most one SELL for a symbol (`one_trade`),
whatever becomes of them. What it emits is what it would emit alone, shown its own ticks of that
symbol only (`emissionsOf_eq_alone`): the processor, the exchange, the risk check and the other
strategies have no part in it.
-/

namespace TradingTerminal

open Lib

/-- The side and the quantity of an order. -/
def Order.lot (order : Order) : Bool × ℚ := (order.isBuy, order.quantity)

namespace Terminal

/-- The orders that an input makes a strategy hand to the order manager, with the strategy. -/
def emitted (t : Terminal) : TerminalInput → List (Nat × Order)
  | .turn i turn =>
    match t.strategies[i]? with
    | none => []
    | some strategy =>
      let signal := (strategy.generateSignal turn.tick turn.clock).1
      if signal.valid then signal.orders.map (i, ·) else []
  | .process .. => []

/-- The orders emitted in a run. -/
def emissions (t : Terminal) (inputs : List TerminalInput) : List (Nat × Order) :=
  (outputs step emitted t inputs).flatMap Prod.snd

/-- The emissions of one strategy for one symbol. -/
def emissionsOf (t : Terminal) (i : Nat) (symbol : String) (inputs : List TerminalInput) :
    List Order :=
  ((t.emissions inputs).filter fun x => x.1 = i ∧ x.2.symbol = symbol).map Prod.snd

@[simp] theorem emissions_nil (t : Terminal) : t.emissions [] = [] := rfl

@[simp] theorem emissions_cons (t : Terminal) (x : TerminalInput) (xs : List TerminalInput) :
    t.emissions (x :: xs) = t.emitted x ++ (t.step x).emissions xs := rfl

/-! ## A trip from flat to sold -/

/-- The position fields of a symbol and what was emitted for it. -/
inductive Trip (size : ℚ) (symbol : String) (p : PositionState) : List Order → Prop
  | flat (inPosition : p.inPosition = false) (pendingExit : p.pendingExit = false) :
      Trip size symbol p []
  | bought {buy : Order} (inPosition : p.inPosition = true) (pendingExit : p.pendingExit = false)
      (sized : Sized size symbol true buy) : Trip size symbol p [buy]
  | sold {buy sell : Order} (inPosition : p.inPosition = true) (pendingExit : p.pendingExit = true)
      (sizedBuy : Sized size symbol true buy) (sizedSell : Sized size symbol false sell) :
      Trip size symbol p [buy, sell]

theorem Sized.lot {size : ℚ} {symbol : String} {isBuy : Bool} {order : Order}
    (h : Sized size symbol isBuy order) : order.lot = (isBuy, size) := by
  rw [Order.lot, h.isBuy, h.quantity]

theorem Trip.lots {size : ℚ} {symbol : String} {p : PositionState} {orders : List Order}
    (h : Trip size symbol p orders) : orders.map Order.lot <+: [(true, size), (false, size)] := by
  cases h with
  | flat => exact List.nil_prefix
  | bought _ _ sized =>
    rw [List.map_singleton, Sized.lot sized]
    exact ⟨[(false, size)], rfl⟩
  | sold _ _ sizedBuy sizedSell =>
    rw [List.map_cons, List.map_singleton, Sized.lot sizedBuy, Sized.lot sizedSell]

theorem Trip.flags {size : ℚ} {symbol : String} {p p' : PositionState} {orders : List Order}
    (h : Trip size symbol p orders) (hin : p'.inPosition = p.inPosition)
    (hpend : p'.pendingExit = p.pendingExit) : Trip size symbol p' orders := by
  cases h with
  | flat inPosition pendingExit => exact .flat (hin.trans inPosition) (hpend.trans pendingExit)
  | bought inPosition pendingExit sized =>
    exact .bought (hin.trans inPosition) (hpend.trans pendingExit) sized
  | sold inPosition pendingExit sizedBuy sizedSell =>
    exact .sold (hin.trans inPosition) (hpend.trans pendingExit) sizedBuy sizedSell

/-- Of all that was emitted, the orders of one strategy for one symbol. -/
def pastOf (past : List (Nat × Order)) (i : Nat) (symbol : String) : List Order :=
  (past.filter fun x => x.1 = i ∧ x.2.symbol = symbol).map Prod.snd

theorem pastOf_append (past new : List (Nat × Order)) (i : Nat) (symbol : String) :
    pastOf (past ++ new) i symbol = pastOf past i symbol ++ pastOf new i symbol := by
  simp [pastOf]

/-- Every symbol of every strategy is on its trip, and what is placed or queued was emitted. -/
structure OnTrip (sizes : List ℚ) (past : List (Nat × Order)) (t : Terminal) : Prop where
  owned : t.Owned
  sizes : t.strategies.map LiveStrategy.positionSize = sizes
  trips : ∀ i strategy, t.strategies[i]? = some strategy → ∀ symbol,
    Trip strategy.positionSize symbol (strategy.position symbol) (pastOf past i symbol)
  emitted : ∀ i symbol, ((t.ordersOf i symbol).map (·.2.lot)).Sublist
    ((pastOf past i symbol).map Order.lot)

theorem onTrip_start (params : List StrategyParams) (limits : Limits) (breaker : CircuitBreaker) :
    OnTrip (params.map fun param => (LiveStrategy.create param).positionSize) []
      (start params limits breaker) := by
  refine ⟨rfl, ?_, ?_, ?_⟩
  · simp [start, Function.comp_def]
  · intro i strategy hi symbol
    obtain ⟨param, -, rfl⟩ :
        ∃ param, params[i]? = some param ∧ LiveStrategy.create param = strategy := by
      simpa [start] using hi
    exact .flat (by simp) (by simp)
  · intro i symbol
    simp [start, ordersOf, placedOrQueued]

variable {sizes : List ℚ} {past : List (Nat × Order)} {t : Terminal}

/-- The processor only takes orders away. -/
theorem OnTrip.process (h : OnTrip sizes past t) (answer : String) (latency : Nat) :
    OnTrip sizes past (t.step (.process answer latency)) := by
  obtain ⟨howned, hpassed⟩ := step_process h.owned answer latency
  refine ⟨howned, ?_, ?_, fun i symbol => ?_⟩
  · rw [step_process_strategies, h.sizes]
  · rw [step_process_strategies]
    exact h.trips
  · refine List.Sublist.trans (List.Sublist.map _ ?_) (h.emitted i symbol)
    cases hpassed with
    | kept same _ => rw [ordersOf, same]; exact List.Sublist.refl _
    | dropped _ rest _ =>
      rw [ordersOf, rest]
      exact (List.eraseIdx_sublist _ _).filter _

/-- A turn changes no size. -/
theorem sizes_turn {i : Nat} {turn : Turn} {strategy : LiveStrategy}
    (hi : t.strategies[i]? = some strategy) :
    (t.strategies.set i (strategy.generateSignal turn.tick turn.clock).2).map
      LiveStrategy.positionSize = t.strategies.map LiveStrategy.positionSize := by
  obtain ⟨hlt, rfl⟩ := List.getElem?_eq_some_iff.1 hi
  rw [List.map_set, LiveStrategy.generateSignal_positionSize, ← List.getElem_map
    LiveStrategy.positionSize (h := by simpa using hlt), List.set_getElem_self]

/-- A turn that emits `order` takes the symbol one leg further. -/
theorem OnTrip.turn_order (h : OnTrip sizes past t) {i : Nat} {turn : Turn}
    {strategy : LiveStrategy} {order : Order} {isBuy : Bool}
    (hi : t.strategies[i]? = some strategy)
    (horders : (strategy.generateSignal turn.tick turn.clock).1.orders = [order])
    (hvalid : (strategy.generateSignal turn.tick turn.clock).1.valid = true)
    (hsized : Sized strategy.positionSize turn.tick.symbol isBuy order)
    (htrip : Trip strategy.positionSize turn.tick.symbol
      ((strategy.generateSignal turn.tick turn.clock).2.position turn.tick.symbol)
      (pastOf past i turn.tick.symbol ++ [order])) :
    OnTrip sizes (past ++ [(i, order)]) (t.step (.turn i turn)) := by
  have frame := step_turn_frame turn h.owned hi
  have others := (strategy.generateSignal_positions turn.tick turn.clock).others
  have hhere : pastOf [(i, order)] i turn.tick.symbol = [order] := by
    simp [pastOf, hsized.symbol]
  have hthere : ∀ j symbol, j ≠ i ∨ symbol ≠ turn.tick.symbol → pastOf [(i, order)] j symbol = [] := by
    intro j symbol hne
    rcases hne with hj | hs
    · simp [pastOf, Ne.symm hj]
    · simp [pastOf, hsized.symbol, Ne.symm hs]
  refine ⟨frame.owned, ?_, ?_, ?_⟩
  · rw [frame.strategies, sizes_turn hi, h.sizes]
  · intro j strategy' hj symbol
    rw [frame.strategies] at hj
    rw [pastOf_append]
    rcases getElem?_set_some hi hj with ⟨rfl, rfl⟩ | ⟨hji, hj⟩
    · by_cases hs : symbol = turn.tick.symbol
      · subst hs
        rw [hhere, LiveStrategy.generateSignal_positionSize]
        exact htrip
      · rw [hthere j symbol (.inr hs), List.append_nil, others symbol hs,
          LiveStrategy.generateSignal_positionSize]
        exact h.trips j strategy hi symbol
    · rw [hthere j symbol (.inl hji), List.append_nil]
      exact h.trips j strategy' hj symbol
  · intro j symbol
    rw [pastOf_append, List.map_append]
    by_cases hjs : j = i ∧ symbol = turn.tick.symbol
    · obtain ⟨rfl, rfl⟩ := hjs
      obtain ⟨id, hnew⟩ := step_turn_here h.owned hi hsized.symbol hvalid horders
      rw [hnew, hhere, List.map_append]
      refine (h.emitted j turn.tick.symbol).append ?_
      split
      · exact List.Sublist.refl _
      · exact List.nil_sublist _
    · have hne : j ≠ i ∨ symbol ≠ turn.tick.symbol := by
        by_contra hcon
        push Not at hcon
        exact hjs hcon
      rw [frame.others j symbol hne, hthere j symbol hne, List.map_nil, List.append_nil]
      exact h.emitted j symbol

theorem OnTrip.turn (h : OnTrip sizes past t) (i : Nat) (turn : Turn) :
    OnTrip sizes (past ++ t.emitted (.turn i turn)) (t.step (.turn i turn)) := by
  cases hi : t.strategies[i]? with
  | none => simpa [step, Terminal.emitted, hi] using h
  | some strategy =>
    have hpast := h.trips i strategy hi turn.tick.symbol
    have hpositions := strategy.generateSignal_positions turn.tick turn.clock
    cases hpositions.here with
    | quiet _ valid inPosition pendingExit _ =>
      have hemitted : t.emitted (.turn i turn) = [] := by simp [Terminal.emitted, hi, valid]
      rw [hemitted, List.append_nil, step_turn_quiet hi valid]
      refine ⟨h.owned, by rw [sizes_turn hi, h.sizes], fun j strategy' hj symbol => ?_, h.emitted⟩
      rcases getElem?_set_some hi hj with ⟨rfl, rfl⟩ | ⟨-, hj⟩
      · rw [LiveStrategy.generateSignal_positionSize]
        by_cases hs : symbol = turn.tick.symbol
        · subst hs
          exact hpast.flags inPosition pendingExit
        · rw [hpositions.others symbol hs]
          exact h.trips j strategy hi symbol
      · exact h.trips j strategy' hj symbol
    | @exit order orders valid sized held idle _ inPosition pendingExit =>
      have hemitted : t.emitted (.turn i turn) = [(i, order)] := by
        simp [Terminal.emitted, hi, valid, orders]
      rw [hemitted]
      refine h.turn_order hi orders valid sized ?_
      generalize pastOf past i turn.tick.symbol = done at hpast
      cases hpast with
      | flat hflat _ => rw [held] at hflat; cases hflat
      | bought _ _ sizedBuy => exact .sold inPosition pendingExit sizedBuy sized
      | sold _ hpend _ _ => rw [idle] at hpend; cases hpend
    | @entry order orders valid sized flat idle inPosition pendingExit =>
      have hemitted : t.emitted (.turn i turn) = [(i, order)] := by
        simp [Terminal.emitted, hi, valid, orders]
      rw [hemitted]
      refine h.turn_order hi orders valid sized ?_
      generalize pastOf past i turn.tick.symbol = done at hpast
      cases hpast with
      | flat _ _ => exact .bought inPosition pendingExit sized
      | bought hin _ _ => rw [flat] at hin; cases hin
      | sold hin _ _ _ => rw [flat] at hin; cases hin

theorem run_onTrip (inputs : List TerminalInput) (h : OnTrip sizes past t) :
    OnTrip sizes (past ++ t.emissions inputs) (run step t inputs) := by
  induction inputs generalizing t past with
  | nil => simpa using h
  | cons x xs ih =>
    rw [emissions_cons, ← List.append_assoc, run_cons]
    apply ih
    cases x with
    | turn i turn => exact h.turn i turn
    | process answer latency => simpa [Terminal.emitted] using h.process answer latency

/-- The strategy of a given size. -/
theorem OnTrip.strategy (h : OnTrip sizes past t) {i : Nat} {size : ℚ}
    (hi : sizes[i]? = some size) :
    ∃ strategy, t.strategies[i]? = some strategy ∧ strategy.positionSize = size := by
  rw [← h.sizes] at hi
  simpa using hi

/-- What was emitted for a symbol is the beginning of a round trip. -/
theorem OnTrip.lots (h : OnTrip sizes past t) {i : Nat} {size : ℚ} (hi : sizes[i]? = some size)
    (symbol : String) : (pastOf past i symbol).map Order.lot <+: [(true, size), (false, size)] := by
  obtain ⟨strategy, hstrategy, rfl⟩ := h.strategy hi
  exact (h.trips i strategy hstrategy symbol).lots

/-- What is placed or queued is part of a round trip. -/
theorem OnTrip.ordersOf_lots (h : OnTrip sizes past t) {i : Nat} {size : ℚ}
    (hi : sizes[i]? = some size) (symbol : String) :
    ((t.ordersOf i symbol).map (·.2.lot)).Sublist [(true, size), (false, size)] :=
  (h.emitted i symbol).trans (h.lots hi symbol).sublist

/-- Every order placed or queued has the size of its strategy. -/
theorem OnTrip.quantity (h : OnTrip sizes past t) {x : Nat × Order} (hx : x ∈ t.placedOrQueued)
    {size : ℚ} (hi : sizes[x.1]? = some size) : x.2.quantity = size := by
  have hmem : x.2.lot ∈ (t.ordersOf x.1 x.2.symbol).map (·.2.lot) :=
    List.mem_map_of_mem (List.mem_filter.2 ⟨hx, by simp⟩)
  have hlot := (h.ordersOf_lots hi x.2.symbol).mem hmem
  simp only [Order.lot, List.mem_cons, List.not_mem_nil, or_false, Prod.mk.injEq] at hlot
  rcases hlot with ⟨-, hq⟩ | ⟨-, hq⟩ <;> exact hq

/-- What was accepted is placed. -/
theorem netAccepted_eq_lots (t : Terminal) (i : Nat) (symbol : String) :
    ∃ lots : List (Bool × ℚ), lots.Sublist ((t.ordersOf i symbol).map (·.2.lot)) ∧
      t.netAccepted i symbol = (lots.map fun lot => if lot.1 then lot.2 else -lot.2).sum := by
  refine ⟨(t.accepted.filter fun x => x.1 = i ∧ x.2.symbol = symbol).map (·.2.lot), ?_, ?_⟩
  · exact ((List.sublist_append_left _ _).filter _).map _
  · rw [netAccepted, List.map_map]
    rfl

/-- The net quantity of a part of a round trip. -/
theorem sum_sublist_lots {size : ℚ} {lots : List (Bool × ℚ)}
    (h : lots.Sublist [(true, size), (false, size)]) :
    (lots.map fun lot => if lot.1 then lot.2 else -lot.2).sum ∈ [0, size, -size] := by
  cases h with
  | cons _ h =>
    cases h with
    | cons _ h =>
      cases h
      simp
    | cons_cons _ h =>
      cases h
      simp
  | cons_cons _ h =>
    cases h with
    | cons _ h =>
      cases h
      simp
    | cons_cons _ h =>
      cases h
      simp

/-- **One trade for each symbol.** In the life of the process a strategy emits for a symbol at most
one BUY and then at most one SELL, both of its position size; what the exchange accepts or the queue
holds is a part of that, so that the net quantity accepted is nothing, one lot bought or one lot
sold. -/
theorem one_trade (params : List StrategyParams) (limits : Limits) (breaker : CircuitBreaker)
    (inputs : List TerminalInput) (i : Fin params.length) (symbol : String) :
    let t := start params limits breaker
    let size := (LiveStrategy.create params[i]).positionSize
    (t.emissionsOf i symbol inputs).map Order.lot <+: [(true, size), (false, size)] ∧
      (((run step t inputs).ordersOf i symbol).map (·.2.lot)).Sublist
        ((t.emissionsOf i symbol inputs).map Order.lot) ∧
      (run step t inputs).netAccepted i symbol ∈ [0, size, -size] := by
  intro t size
  have h := run_onTrip inputs (onTrip_start params limits breaker)
  rw [List.nil_append] at h
  have hi : (params.map fun param => (LiveStrategy.create param).positionSize)[i.1]? = some size := by
    simp [size]
  refine ⟨h.lots hi symbol, h.emitted i symbol, ?_⟩
  obtain ⟨lots, hlots, hnet⟩ := netAccepted_eq_lots (run step t inputs) i symbol
  rw [hnet]
  exact sum_sublist_lots (hlots.trans (h.ordersOf_lots hi symbol))

end Terminal

/-! ## What a strategy emits alone -/

/-- The orders that `main.cpp` hands on for the answer of a strategy. -/
def handedOn : Option Signal → List Order
  | some signal => if signal.valid then signal.orders else []
  | none => []

namespace LiveStrategy

/-- The orders a strategy emits when nobody else is there. -/
def alone (s : LiveStrategy) (events : List StrategyEvent) : List Order :=
  (s.signals events).flatMap fun x => handedOn x.2

theorem alone_cons (s : LiveStrategy) (event : StrategyEvent) (events : List StrategyEvent) :
    s.alone (event :: events) = handedOn (s.handle event).1 ++ (s.handle event).2.alone events :=
  rfl

/-- An order handed on is for the symbol of the event that brought it about. -/
theorem handedOn_symbol (s : LiveStrategy) (event : StrategyEvent) :
    ∀ order ∈ handedOn (s.handle event).1, order.symbol = event.symbol := by
  cases event with
  | tick tick now =>
    show ∀ order ∈ handedOn (some (s.generateSignal tick now).1), order.symbol = tick.symbol
    cases (s.generateSignal_positions tick now).here with
    | quiet _ valid _ _ _ => simp [handedOn, valid]
    | exit orders valid sized _ _ _ _ _ => simpa [handedOn, valid, orders] using sized.symbol
    | entry orders valid sized _ _ _ _ => simpa [handedOn, valid, orders] using sized.symbol
  | filled order => simp [handle, handedOn]
  | rejected order => simp [handle, handedOn]
  | resetVwap symbol => simp [handle, handedOn]

/-- The orders for a symbol come from the events of that symbol. -/
theorem alone_filter (s : LiveStrategy) (events : List StrategyEvent) (symbol : String) :
    (s.alone events).filter (·.symbol = symbol) = s.alone (events.filter (·.symbol = symbol)) := by
  unfold alone signals
  rw [← keyed.outputs_filter symbol]
  induction events generalizing s with
  | nil => rfl
  | cons event events ih =>
    have hsymbol := s.handedOn_symbol event
    rw [outputs, List.flatMap_cons, List.filter_append, ih]
    by_cases he : event.symbol = symbol
    · rw [List.filter_cons_of_pos (by simpa using he), List.flatMap_cons,
        List.filter_eq_self.2 fun order ho => by simpa using (hsymbol order ho).trans he]
    · rw [List.filter_cons_of_neg (by simpa using he), List.filter_eq_nil_iff.2 fun order ho => by
        simpa [hsymbol order ho] using he, List.nil_append]

end LiveStrategy

namespace Terminal

/-- The ticks that strategy `i` is shown in a run, each with its reading of the clock. -/
def ticksOf (i : Nat) (inputs : List TerminalInput) : List StrategyEvent :=
  inputs.filterMap fun
    | .turn j turn => if j = i then some (.tick turn.tick turn.clock) else none
    | .process .. => none

theorem step_turn_strategies {t : Terminal} {i : Nat} {turn : Turn} {strategy : LiveStrategy}
    (hi : t.strategies[i]? = some strategy) :
    (t.step (.turn i turn)).strategies =
      t.strategies.set i (strategy.generateSignal turn.tick turn.clock).2 := by
  simp only [step, hi]
  split <;> rfl

/-- The emissions of a strategy in the terminal are those of the strategy alone on its ticks. -/
theorem emissions_filter {t : Terminal} {i : Nat} {strategy : LiveStrategy}
    (hi : t.strategies[i]? = some strategy) (inputs : List TerminalInput) :
    ((t.emissions inputs).filter (·.1 = i)).map Prod.snd = strategy.alone (ticksOf i inputs) := by
  induction inputs generalizing t strategy with
  | nil => rfl
  | cons x inputs ih =>
    rw [emissions_cons, List.filter_append, List.map_append]
    cases x with
    | process answer latency =>
      rw [ih (by rwa [step_process_strategies])]
      rfl
    | turn j turn =>
      cases hj : t.strategies[j]? with
      | none =>
        have hji : j ≠ i := by
          rintro rfl
          rw [hi] at hj
          cases hj
        have hstep : t.step (.turn j turn) = t := by simp [step, hj]
        rw [hstep, ih hi]
        simp [emitted, hj, ticksOf, hji]
      | some other =>
        have hstrategies : (t.step (.turn j turn)).strategies =
            t.strategies.set j (other.generateSignal turn.tick turn.clock).2 :=
          step_turn_strategies hj
        by_cases hji : j = i
        · subst hji
          obtain rfl : other = strategy := Option.some.inj (hj.symm.trans hi)
          have hlt := (List.getElem?_eq_some_iff.1 hi).1
          rw [ih (by rw [hstrategies, List.getElem?_set_self hlt])]
          have hticks : ticksOf j (.turn j turn :: inputs) =
              .tick turn.tick turn.clock :: ticksOf j inputs := by simp [ticksOf]
          rw [hticks, LiveStrategy.alone_cons]
          congr 1
          simp only [emitted, hj, LiveStrategy.handle, handedOn]
          split
          · simp [List.filter_map, Function.comp_def]
          · rfl
        · rw [ih (by rw [hstrategies, List.getElem?_set_ne hji, hi])]
          have hnone : (t.emitted (.turn j turn)).filter (·.1 = i) = [] := by
            simp only [emitted, hj]
            split
            · simp [hji]
            · rfl
          rw [hnone]
          simp [ticksOf, hji]

/-- **Nobody interferes.** Whatever the interleaving of the turns of all strategies with the passes
of the processor, the decisions of the risk check, the breaker and the exchange, a strategy emits
for a symbol exactly the orders it emits alone on the ticks of that symbol it is shown. -/
theorem emissionsOf_eq_alone (params : List StrategyParams) (limits : Limits)
    (breaker : CircuitBreaker) (inputs : List TerminalInput) (i : Fin params.length)
    (symbol : String) :
    (start params limits breaker).emissionsOf i symbol inputs =
      (LiveStrategy.create params[i]).alone ((ticksOf i inputs).filter (·.symbol = symbol)) := by
  have hi : (start params limits breaker).strategies[i.1]? =
      some (LiveStrategy.create params[i]) := by
    simp [start]
  rw [← LiveStrategy.alone_filter, ← emissions_filter hi, emissionsOf, List.filter_map,
    List.filter_filter]
  congr 2
  funext x
  simp only [Bool.decide_and]
  exact Bool.and_comm _ _

end Terminal

end TradingTerminal
