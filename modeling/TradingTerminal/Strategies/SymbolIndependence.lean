import TradingTerminal.Strategies.LiveStrategy
import TradingTerminal.Lib.Keyed

/-!
# The symbols of a live strategy

Both live strategies keep their windows, sums and flags per symbol, and an event of a symbol reads
and writes the entry of that symbol alone, next to the parameters, which no event changes. So the
strategies are `Keyed` by the symbol, and the signals of one symbol do not depend on the events of
the others. The P&L and the position list are shared between the symbols, but no signal reads them.
-/

namespace TradingTerminal

open Lib

/-- What a strategy is told: a tick with the reading of the system clock, the answer to an order, or
the start of a session. -/
inductive StrategyEvent where
  | tick (tick : Tick) (now : UInt64)
  | filled (order : Order)
  | rejected (order : Order)
  | resetVwap (symbol : String)

def StrategyEvent.symbol : StrategyEvent → String
  | .tick t _ => t.symbol
  | .filled order => order.symbol
  | .rejected order => order.symbol
  | .resetVwap symbol => symbol

/-! ## The momentum strategy -/

namespace MomentumStrategy

/-- The parameters: the strategy without data, P&L and positions. -/
def settings (s : MomentumStrategy) : MomentumStrategy := { s with toStrategy := {}, data := ∅ }

/-- What an event of `symbol` reads. -/
def view (s : MomentumStrategy) (symbol : String) : MomentumStrategy × SymbolData :=
  (s.settings, s.symbolData symbol)

/-- `generate_signal` on the data of the tick's symbol. -/
def react (s : MomentumStrategy) (data : SymbolData) (tick : Tick) (now : UInt64) :
    Signal × SymbolData :=
  let data := data.recordTick tick
  if data.prices.length < 50 then ({ symbol := tick.symbol }, data)
  else
    let data := data.calculate
    let out := trade s.positionSize s.trailingStopPct tick now (s.exitReason data tick now)
      (9 / 10) (s.entry data tick) data.toPositionState
    (out.signal, { data with toPositionState := out.position })

/-- An event that leaves the parameters and replaces one entry updates the view of that symbol. -/
theorem view_of_insert {s s' : MomentumStrategy} {symbol : String} {data : SymbolData}
    (hsettings : s'.settings = s.settings) (hdata : s'.data = s.data.insert symbol data) :
    s'.view = Function.update s.view symbol (s.settings, data) := by
  have hview : s'.view = fun k => (s.settings, UMap.getD (s.data.insert symbol data) k {}) := by
    funext k
    rw [view, hsettings, symbolData, hdata]
  rw [hview, UMap.update_getD]
  rfl

theorem generateSignal_react (s : MomentumStrategy) (tick : Tick) (now : UInt64) :
    (s.generateSignal tick now).1 = (s.settings.react (s.symbolData tick.symbol) tick now).1 ∧
      (s.generateSignal tick now).2.view = Function.update s.view tick.symbol
        (s.settings, (s.settings.react (s.symbolData tick.symbol) tick now).2) := by
  unfold generateSignal react
  dsimp only
  split
  · exact ⟨rfl, view_of_insert rfl rfl⟩
  · exact ⟨rfl, view_of_insert rfl rfl⟩

theorem onOrderFilled_view (s : MomentumStrategy) (order : Order) :
    (s.onOrderFilled order).view = Function.update s.view order.symbol (s.settings,
      { s.symbolData order.symbol with
        toPositionState := (s.symbolData order.symbol).toPositionState.filled order.isBuy }) := by
  unfold onOrderFilled
  cases hb : order.isBuy with
  | true =>
    simp only [Bool.not_true, Bool.false_eq_true, if_false]
    exact (Function.update_eq_self order.symbol s.view).symm
  | false => exact view_of_insert rfl rfl

theorem onOrderRejected_view (s : MomentumStrategy) (order : Order) :
    (s.onOrderRejected order).view = Function.update s.view order.symbol (s.settings,
      { s.symbolData order.symbol with
        toPositionState := (s.symbolData order.symbol).toPositionState.rejected order.isBuy }) :=
  view_of_insert rfl rfl

end MomentumStrategy

/-! ## The weighted strategy -/

namespace WeightedStrategy

def settings (s : WeightedStrategy) : WeightedStrategy := { s with toStrategy := {}, data := ∅ }

def view (s : WeightedStrategy) (symbol : String) : WeightedStrategy × SignalData :=
  (s.settings, s.signalData symbol)

/-- `generate_signal` on the data of the tick's symbol. -/
def react (s : WeightedStrategy) (data : SignalData) (tick : Tick) (now : UInt64) :
    Signal × SignalData :=
  let data := data.recordTick tick
  if data.prices.length < 30 then ({ symbol := tick.symbol }, data)
  else
    let (score, data) := s.scored data tick
    let out := trade s.positionSize s.trailingStopPct tick now (s.exitReason score tick now) score
      (s.entry score data) data.toPositionState
    (out.signal, { data with toPositionState := out.position })

theorem view_of_insert {s s' : WeightedStrategy} {symbol : String} {data : SignalData}
    (hsettings : s'.settings = s.settings) (hdata : s'.data = s.data.insert symbol data) :
    s'.view = Function.update s.view symbol (s.settings, data) := by
  have hview : s'.view = fun k => (s.settings, UMap.getD (s.data.insert symbol data) k {}) := by
    funext k
    rw [view, hsettings, signalData, hdata]
  rw [hview, UMap.update_getD]
  rfl

theorem generateSignal_react (s : WeightedStrategy) (tick : Tick) (now : UInt64) :
    (s.generateSignal tick now).1 = (s.settings.react (s.signalData tick.symbol) tick now).1 ∧
      (s.generateSignal tick now).2.view = Function.update s.view tick.symbol
        (s.settings, (s.settings.react (s.signalData tick.symbol) tick now).2) := by
  unfold generateSignal react
  dsimp only
  split
  · exact ⟨rfl, view_of_insert rfl rfl⟩
  · exact ⟨rfl, view_of_insert rfl rfl⟩

theorem onOrderFilled_view (s : WeightedStrategy) (order : Order) :
    (s.onOrderFilled order).view = Function.update s.view order.symbol (s.settings,
      { s.signalData order.symbol with
        toPositionState := (s.signalData order.symbol).toPositionState.filled order.isBuy }) := by
  unfold onOrderFilled
  cases hb : order.isBuy with
  | true =>
    simp only [Bool.not_true, Bool.false_eq_true, if_false]
    exact (Function.update_eq_self order.symbol s.view).symm
  | false => exact view_of_insert rfl rfl

theorem onOrderRejected_view (s : WeightedStrategy) (order : Order) :
    (s.onOrderRejected order).view = Function.update s.view order.symbol (s.settings,
      { s.signalData order.symbol with
        toPositionState := (s.signalData order.symbol).toPositionState.rejected order.isBuy }) :=
  view_of_insert rfl rfl

/-- The reset of a symbol without data changes no view: the sums it would clear are zero. -/
theorem resetVwap_view (s : WeightedStrategy) (symbol : String) :
    (s.resetVwap symbol).view = Function.update s.view symbol (s.settings,
      { s.signalData symbol with cumulativePv := 0, cumulativeV := 0, vwap := 0 }) := by
  unfold resetVwap
  cases h : s.data.lookup symbol with
  | some data =>
    have hdata : s.signalData symbol = data := by rw [signalData, UMap.getD, h, Option.getD_some]
    rw [hdata]
    exact view_of_insert rfl rfl
  | none =>
    have hdata : s.signalData symbol = {} := by rw [signalData, UMap.getD, h, Option.getD_none]
    have hview : s.view symbol = (s.settings,
        { s.signalData symbol with cumulativePv := 0, cumulativeV := 0, vwap := 0 }) := by
      rw [view, hdata]
    rw [← hview, Function.update_eq_self]

end WeightedStrategy

/-! ## Both strategies -/

namespace LiveStrategy

/-- `reset_vwap`, which only the weighted strategy has. -/
def resetVwap (s : LiveStrategy) (symbol : String) : LiveStrategy :=
  match s with
  | .momentum s => .momentum s
  | .weighted s => .weighted (s.resetVwap symbol)

/-- An event: the signal a tick returns, and the strategy after it. -/
def handle (s : LiveStrategy) : StrategyEvent → Option Signal × LiveStrategy
  | .tick tick now => let (signal, s) := s.generateSignal tick now; (some signal, s)
  | .filled order => (none, s.onOrderFilled order)
  | .rejected order => (none, s.onOrderRejected order)
  | .resetVwap symbol => (none, s.resetVwap symbol)

/-- What an event of `symbol` reads of a strategy. -/
def view (s : LiveStrategy) (symbol : String) :
    (MomentumStrategy × MomentumStrategy.SymbolData) ⊕
      (WeightedStrategy × WeightedStrategy.SignalData) :=
  match s with
  | .momentum s => .inl (s.view symbol)
  | .weighted s => .inr (s.view symbol)

/-- An event on the view of its symbol: the signal it returns, and the view after it. -/
def respond : (MomentumStrategy × MomentumStrategy.SymbolData) ⊕
    (WeightedStrategy × WeightedStrategy.SignalData) → StrategyEvent → Option Signal ×
    ((MomentumStrategy × MomentumStrategy.SymbolData) ⊕
      (WeightedStrategy × WeightedStrategy.SignalData))
  | .inl (s, data), .tick tick now =>
    let (signal, data) := s.react data tick now
    (some signal, .inl (s, data))
  | .inl (s, data), .filled order =>
    (none, .inl (s, { data with toPositionState := data.toPositionState.filled order.isBuy }))
  | .inl (s, data), .rejected order =>
    (none, .inl (s, { data with toPositionState := data.toPositionState.rejected order.isBuy }))
  | .inl (s, data), .resetVwap _ => (none, .inl (s, data))
  | .inr (s, data), .tick tick now =>
    let (signal, data) := s.react data tick now
    (some signal, .inr (s, data))
  | .inr (s, data), .filled order =>
    (none, .inr (s, { data with toPositionState := data.toPositionState.filled order.isBuy }))
  | .inr (s, data), .rejected order =>
    (none, .inr (s, { data with toPositionState := data.toPositionState.rejected order.isBuy }))
  | .inr (s, data), .resetVwap _ =>
    (none, .inr (s, { data with cumulativePv := 0, cumulativeV := 0, vwap := 0 }))

theorem handle_signal (s : LiveStrategy) (event : StrategyEvent) :
    (s.handle event).1 = (respond (s.view event.symbol) event).1 := by
  cases s with
  | momentum s =>
    cases event with
    | tick tick now => exact congrArg some (s.generateSignal_react tick now).1
    | filled order => rfl
    | rejected order => rfl
    | resetVwap symbol => rfl
  | weighted s =>
    cases event with
    | tick tick now => exact congrArg some (s.generateSignal_react tick now).1
    | filled order => rfl
    | rejected order => rfl
    | resetVwap symbol => rfl

theorem handle_view (s : LiveStrategy) (event : StrategyEvent) :
    (s.handle event).2.view = Function.update s.view event.symbol
      (respond (s.view event.symbol) event).2 := by
  cases s with
  | momentum s =>
    have hcomp : ∀ {t : MomentumStrategy} {symbol : String} {v},
        t.view = Function.update s.view symbol v →
        (LiveStrategy.momentum t).view = Function.update (LiveStrategy.momentum s).view symbol (.inl v) :=
      fun h => (congrArg (Sum.inl ∘ ·) h).trans (Function.comp_update Sum.inl _ _ _)
    cases event with
    | tick tick now => exact hcomp (s.generateSignal_react tick now).2
    | filled order => exact hcomp (s.onOrderFilled_view order)
    | rejected order => exact hcomp (s.onOrderRejected_view order)
    | resetVwap symbol => exact (Function.update_eq_self symbol (LiveStrategy.momentum s).view).symm
  | weighted s =>
    have hcomp : ∀ {t : WeightedStrategy} {symbol : String} {v},
        t.view = Function.update s.view symbol v →
        (LiveStrategy.weighted t).view = Function.update (LiveStrategy.weighted s).view symbol (.inr v) :=
      fun h => (congrArg (Sum.inr ∘ ·) h).trans (Function.comp_update Sum.inr _ _ _)
    cases event with
    | tick tick now => exact hcomp (s.generateSignal_react tick now).2
    | filled order => exact hcomp (s.onOrderFilled_view order)
    | rejected order => exact hcomp (s.onOrderRejected_view order)
    | resetVwap symbol => exact hcomp (s.resetVwap_view symbol)

/-- The live strategies are keyed by the symbol. -/
theorem keyed : Keyed (fun s event => (handle s event).2) (fun s event => (handle s event).1)
    StrategyEvent.symbol view :=
  Keyed.of_update (f := fun v event => (respond v event).1) (g := fun v event => (respond v event).2)
    handle_signal handle_view

/-- The signals of a run, each with the event that returned it. -/
def signals (s : LiveStrategy) (events : List StrategyEvent) : List (StrategyEvent × Option Signal) :=
  outputs (fun s event => (s.handle event).2) (fun s event => (s.handle event).1) s events

/-- The signals returned for the ticks of a symbol, in order. -/
def signalsOf (s : LiveStrategy) (events : List StrategyEvent) (symbol : String) : List Signal :=
  ((s.signals events).filter (·.1.symbol = symbol)).filterMap Prod.snd

/-- **Symbols do not influence each other.** The signals a strategy returns for the ticks of a symbol
are all those it returns when it is fed the events of that symbol alone, and they stay the same under
every reordering of the events that keeps each symbol's own order. -/
theorem signalsOf_independent (s : LiveStrategy) (events : List StrategyEvent) :
    (∀ symbol, s.signalsOf events symbol =
      (s.signals (events.filter (·.symbol = symbol))).filterMap Prod.snd) ∧
    ∀ reordered : List StrategyEvent,
      (∀ symbol, reordered.filter (·.symbol = symbol) = events.filter (·.symbol = symbol)) →
      ∀ symbol, s.signalsOf reordered symbol = s.signalsOf events symbol := by
  constructor
  · intro symbol
    rw [signalsOf, signals, keyed.outputs_filter symbol]
    rfl
  · intro reordered horder symbol
    rw [signalsOf, signalsOf, signals, signals, keyed.filter_outputs_eq s (horder symbol)]

/-- Two ticks of different symbols may come in either order. -/
theorem twoTicks_signalsOf :
    let s : LiveStrategy := .momentum (.new 10 70 30)
    let a : StrategyEvent := .tick { symbol := "AAPL", price := 100 } 0
    let b : StrategyEvent := .tick { symbol := "MSFT", price := 200 } 0
    s.signalsOf [b, a] "AAPL" = s.signalsOf [a, b] "AAPL" := by
  intro s a b
  refine (s.signalsOf_independent [a, b]).2 [b, a] (fun symbol => ?_) "AAPL"
  by_cases ha : "AAPL" = symbol
  · subst ha
    rfl
  · simp [a, StrategyEvent.symbol, List.filter_cons, ha]

end LiveStrategy

end TradingTerminal
