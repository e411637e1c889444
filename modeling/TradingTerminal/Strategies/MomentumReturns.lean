import TradingTerminal.Strategies.Divisions
import TradingTerminal.Lib.Consecutive

/-!
# The returns of the momentum strategy

The momentum strategy appends one return per tick, against the price it saw last, and forgets all
but twenty. After every run with positive prices these are the returns recomputed from the last
twenty-one prices of its window (`run_returns`), and so is the volatility: the first positive price
of a symbol only fills `prev_price`, which is zero before.
-/

namespace TradingTerminal

open Lib

/-- The return of a price on the one before it. -/
def returnOf (old new : ℚ) : ℚ := (new - old) / old

def returnsOf (prices : List ℚ) : List ℚ := consecutive returnOf prices

/-- The annualised volatility, recomputed from the last 21 prices. -/
def volatilityOf (prices : List ℚ) : ℚ :=
  sqrt (varianceOf (returnsOf (lastN 21 prices))) * sqrt (252 * 390)

theorem lastN_returnsOf (n : Nat) (prices : List ℚ) :
    lastN n (returnsOf prices) = returnsOf (lastN (n + 1) prices) :=
  rtake_consecutive returnOf prices n

/-- The prices of the ticks of a symbol, in order. -/
def pricesOf (symbol : String) (events : List StrategyEvent) : List ℚ :=
  events.filterMap fun event =>
    match event with
    | .tick tick _ => if tick.symbol = symbol then some tick.price else none
    | _ => none

theorem pricesOf_concat (symbol : String) (events : List StrategyEvent) (event : StrategyEvent) :
    pricesOf symbol (events ++ [event]) = pricesOf symbol events ++ pricesOf symbol [event] :=
  List.filterMap_append

theorem pricesOf_tick_self (tick : Tick) (now : UInt64) :
    pricesOf tick.symbol [.tick tick now] = [tick.price] := by
  simp [pricesOf]

theorem pricesOf_tick_of_ne {symbol : String} {tick : Tick} (h : tick.symbol ≠ symbol)
    (now : UInt64) : pricesOf symbol [.tick tick now] = [] := by
  simp [pricesOf, h]

namespace MomentumStrategy

/-- What an event does to the data of a symbol, the position fields aside. -/
def observe (symbol : String) (data : SymbolData) : StrategyEvent → SymbolData
  | .tick tick _ =>
    if tick.symbol = symbol then
      let data := data.recordTick tick
      if data.prices.length < 50 then data else data.calculate
    else data
  | _ => data

theorem symbolData_eq_view (s : MomentumStrategy) (symbol : String) :
    s.symbolData symbol = (s.view symbol).2 := rfl

/-- The answer to an order only touches the position fields. -/
theorem symbolData_of_callback {s s' : MomentumStrategy} {key : String} {p : PositionState}
    (hview : s'.view = Function.update s.view key
      (s.settings, { s.symbolData key with toPositionState := p })) (symbol : String) :
    ∃ position, s'.symbolData symbol =
      { s.symbolData symbol with toPositionState := position } := by
  rw [symbolData_eq_view, hview, Function.update_apply]
  by_cases hs : symbol = key
  · rw [if_pos hs, hs]
    exact ⟨_, rfl⟩
  · rw [if_neg hs]
    exact ⟨_, rfl⟩

theorem step_symbolData (s : MomentumStrategy) (event : StrategyEvent) (symbol : String) :
    ∃ position, (s.step event).symbolData symbol =
      { observe symbol (s.symbolData symbol) event with toPositionState := position } := by
  cases event with
  | tick tick now =>
    rw [symbolData_eq_view, step, handle, (s.generateSignal_react tick now).2,
      Function.update_apply]
    by_cases hs : symbol = tick.symbol
    · subst hs
      rw [if_pos rfl, observe, if_pos rfl, react]
      dsimp only
      split
      · exact ⟨_, rfl⟩
      · exact ⟨_, rfl⟩
    · rw [if_neg hs, observe, if_neg (Ne.symm hs)]
      exact ⟨_, rfl⟩
  | filled order => exact symbolData_of_callback (s.onOrderFilled_view order) symbol
  | rejected order => exact symbolData_of_callback (s.onOrderRejected_view order) symbol
  | resetVwap y => exact ⟨_, rfl⟩

/-! ## The series of a symbol -/

/-- The windows of a symbol after its prices, and the price that the next return is against. -/
structure SeriesOf (history : List ℚ) (data : SymbolData) : Prop where
  prices : data.prices = lastN 50 history
  returns : data.returns = lastN 20 (returnsOf history)
  prevPrice : data.prevPrice = history.getLastD 0

section Series

variable {history : List ℚ} {data : SymbolData}

theorem SeriesOf.returns_length (h : SeriesOf history data) :
    data.returns.length = min 20 (history.length - 1) := by
  rw [h.returns, length_lastN, returnsOf, length_consecutive]

/-- The window of the prices is long enough for the returns. -/
theorem SeriesOf.returns_eq (h : SeriesOf history data) :
    data.returns = returnsOf (lastN 21 data.prices) := by
  rw [h.returns, lastN_returnsOf, h.prices, lastN_lastN (by decide)]

/-- One return per tick: the price before it is zero only if there is none. -/
theorem SeriesOf.recordTick (h : SeriesOf history data) (hpositive : ∀ x ∈ history, 0 < x)
    (tick : Tick) : SeriesOf (history ++ [tick.price]) (data.recordTick tick) := by
  refine ⟨?_, ?_, ?_⟩
  · rw [← pushWindow_lastN, ← h.prices]
    rfl
  · rw [SymbolData.recordTick]
    dsimp only
    by_cases hne : history = []
    · have hprev : ¬ data.prevPrice > 0 := by
        rw [h.prevPrice, hne]
        exact lt_irrefl 0
      rw [if_neg hprev, h.returns, hne]
      rfl
    · have hlast : data.prevPrice = history.getLast hne := by
        rw [h.prevPrice, List.getLastD_eq_getLast?, List.getLast?_eq_getLast_of_ne_nil hne,
          Option.getD_some]
      have hprev : data.prevPrice > 0 := by
        rw [hlast]
        exact hpositive _ (List.getLast_mem hne)
      rw [if_pos hprev, h.returns, pushWindow_lastN, hlast, returnsOf, returnsOf,
        consecutive_concat returnOf hne]
      rfl
  · rw [List.getLastD_concat]
    rfl

/-- The series, and the volatility once fifty prices are known. -/
structure TracksReturns (history : List ℚ) (data : SymbolData) : Prop extends
    SeriesOf history data where
  volatility : 50 ≤ history.length → data.volatility = volatilityOf data.prices

theorem TracksReturns.position (h : TracksReturns history data) (p : PositionState) :
    TracksReturns history { data with toPositionState := p } :=
  ⟨⟨h.prices, h.returns, h.prevPrice⟩, h.volatility⟩

theorem TracksReturns.tick (h : TracksReturns history data) (hpositive : ∀ x ∈ history, 0 < x)
    (tick : Tick) (now : UInt64) :
    TracksReturns (history ++ [tick.price]) (observe tick.symbol data (.tick tick now)) := by
  have hseries := h.toSeriesOf.recordTick hpositive tick
  have hprices : (data.recordTick tick).prices.length = min 50 (history.length + 1) := by
    rw [hseries.prices, length_lastN, List.length_append, List.length_singleton]
  have hreturns := hseries.returns_length
  rw [List.length_append, List.length_singleton] at hreturns
  rw [observe, if_pos rfl]
  dsimp only
  split
  · refine ⟨hseries, fun hfull => ?_⟩
    rw [List.length_append, List.length_singleton] at hfull
    omega
  · have henough : ¬ (data.recordTick tick).returns.length < 2 := by omega
    rw [SymbolData.calculate_eq (by omega), if_neg henough]
    refine ⟨⟨hseries.prices, hseries.returns, hseries.prevPrice⟩, fun _ => ?_⟩
    rw [volatilityOf, ← hseries.returns_eq]

end Series

/-! ## Runs -/

/-- The step on the events of a stream. -/
theorem TracksReturns.observe {events : List StrategyEvent} {symbol : String} {data : SymbolData}
    (h : TracksReturns (pricesOf symbol events) data)
    (hpositive : ∀ x ∈ pricesOf symbol events, 0 < x) (event : StrategyEvent) :
    TracksReturns (pricesOf symbol (events ++ [event])) (observe symbol data event) := by
  rw [pricesOf_concat]
  cases event with
  | tick tick now =>
    by_cases hs : tick.symbol = symbol
    · subst hs
      rw [pricesOf_tick_self]
      exact h.tick hpositive tick now
    · rw [pricesOf_tick_of_ne hs, List.append_nil, MomentumStrategy.observe, if_neg hs]
      exact h
  | _ => exact (List.append_nil (pricesOf symbol events)).symm ▸ h

theorem run_tracksReturns {s : MomentumStrategy} {symbol : String} (hs : s.symbolData symbol = {})
    (events : List StrategyEvent) (hpositive : ∀ x ∈ pricesOf symbol events, 0 < x) :
    TracksReturns (pricesOf symbol events) ((run step s events).symbolData symbol) := by
  induction events using List.reverseRecOn with
  | nil =>
    rw [run_nil, hs]
    exact ⟨⟨rfl, rfl, rfl⟩, fun hfull => absurd (show 50 ≤ 0 from hfull) (by decide)⟩
  | append_singleton events event ih =>
    have hbefore : ∀ x ∈ pricesOf symbol events, 0 < x := fun x hx =>
      hpositive x (pricesOf_concat symbol events event ▸ List.mem_append_left _ hx)
    obtain ⟨p, hp⟩ := (run step s events).step_symbolData event symbol
    rw [run_concat, hp]
    exact ((ih hbefore).observe hbefore event).position p

/-- **The returns.** After every sequence of events, the returns of a symbol whose prices were
positive are the last twenty of its whole history, and those recomputed from the window of prices;
the volatility is the recomputed one. -/
theorem run_returns (positionSize rsiUpper rsiLower : ℚ) (symbol : String)
    (events : List StrategyEvent) (hpositive : ∀ x ∈ pricesOf symbol events, 0 < x) :
    let data := (run step (new positionSize rsiUpper rsiLower) events).symbolData symbol
    data.returns = lastN 20 (returnsOf (pricesOf symbol events)) ∧
      data.returns = returnsOf (lastN 21 data.prices) ∧
      varianceOf data.returns = varianceOf (returnsOf (lastN 21 data.prices)) ∧
      (50 ≤ (pricesOf symbol events).length → data.volatility = volatilityOf data.prices) := by
  intro data
  have h : TracksReturns (pricesOf symbol events) data := run_tracksReturns rfl events hpositive
  exact ⟨h.returns, h.returns_eq, congrArg varianceOf h.returns_eq, h.volatility⟩

/-- Sixty ticks whose prices go up and down. -/
def wave : List StrategyEvent :=
  (List.range 60).map fun i =>
    .tick { symbol := "AAPL", price := 100 + (i % 7 : Nat), volume := 1 } 0

theorem wave_run_returns :
    let data := (run step (new 10 70 30) wave).symbolData "AAPL"
    data.returns = returnsOf (lastN 21 data.prices) ∧
      data.volatility = volatilityOf data.prices := by
  intro data
  have h := run_returns 10 70 30 "AAPL" wave (by decide +kernel)
  exact ⟨h.2.1, h.2.2.2 (by decide +kernel)⟩

end MomentumStrategy

end TradingTerminal
