import TradingTerminal.Strategies.SymbolIndependence
import TradingTerminal.Strategies.Windows

/-!
# What a tick does to a live strategy

`Emits` tells the flags and the order of a tick. `Traded` tells all of it: the position fields, the
signal and the booked gain, for a strategy that is warm; before that a tick only fills the window.
A window never shrinks, so a strategy that holds a position stays warm.
-/

namespace TradingTerminal

open Lib

/-- Where nothing changes at the symbol, nothing changes. -/
theorem OnlyAt.eq {symbol : String} {before after : String → PositionState}
    (h : OnlyAt symbol (fun p p' => p' = p) before after) : after = before := by
  funext x
  by_cases hx : x = symbol
  · rw [hx]
    exact h.here
  · exact h.others x hx

/-- How a tick takes the position fields `p` of its symbol to `p'`, with the signal returned and the
gain booked; `exit` is the exit test. -/
inductive Traded (size pct : ℚ) (tick : Tick) (now : UInt64) (exit : PositionState → Option String)
    (p p' : PositionState) (signal : Signal) (gain : ℚ) : Prop
  | hold (held : p.inPosition = true) (after : p' = p.raiseStop pct tick.price)
      (orders : signal.orders = []) (gain : gain = 0)
      (undue : p.pendingExit = false → exit (p.raiseStop pct tick.price) = none)
  | exit {reason : String} (held : p.inPosition = true) (idle : p.pendingExit = false)
      (due : exit (p.raiseStop pct tick.price) = some reason)
      (after : p' = { p.raiseStop pct tick.price with pendingExit := true })
      (orders : signal.orders = [marketOrder tick.symbol tick.bid size false])
      (valid : signal.valid = true) (reason : signal.reason = reason)
      (gain : gain = (tick.price - p.entryPrice) * size)
  | flat (empty : p.inPosition = false) (after : p' = p) (orders : signal.orders = [])
      (gain : gain = 0)
  | entry (empty : p.inPosition = false) (idle : p.pendingExit = false)
      (after : p' = p.enter pct tick.price (clockSeconds now))
      (orders : signal.orders = [marketOrder tick.symbol tick.ask size true]) (gain : gain = 0)

theorem trade_traded (size pct : ℚ) (tick : Tick) (now : UInt64)
    (exitReason : PositionState → Option String) (exitConfidence : ℚ)
    (entry : Option (String × ℚ)) (p : PositionState) :
    Traded size pct tick now exitReason p
      (trade size pct tick now exitReason exitConfidence entry p).position
      (trade size pct tick now exitReason exitConfidence entry p).signal
      (trade size pct tick now exitReason exitConfidence entry p).pnlChange := by
  unfold trade
  cases hin : p.inPosition with
  | true =>
    cases hreason : exitReason (p.raiseStop pct tick.price) with
    | none =>
      simp only [if_true, hreason]
      exact .hold hin rfl rfl rfl fun _ => hreason
    | some reason =>
      cases hpend : p.pendingExit with
      | true =>
        simp only [if_true, hreason, PositionState.raiseStop_pendingExit, hpend, Bool.not_true,
          Bool.false_eq_true, if_false]
        refine .hold hin rfl rfl rfl fun h => ?_
        rw [hpend] at h
        cases h
      | false =>
        simp only [if_true, hreason, PositionState.raiseStop_pendingExit, hpend, Bool.not_false]
        refine .exit hin hpend hreason rfl rfl rfl rfl ?_
        rw [PositionState.raiseStop_entryPrice]
  | false =>
    cases hpend : p.pendingExit with
    | true =>
      simp only [Bool.false_eq_true, if_false, Bool.not_true]
      exact .flat hin rfl rfl rfl
    | false =>
      cases hentry : entry with
      | none =>
        simp only [Bool.false_eq_true, if_false, Bool.not_false, if_true]
        exact .flat hin rfl rfl rfl
      | some e =>
        simp only [Bool.false_eq_true, if_false, Bool.not_false, if_true]
        exact .entry hin hpend rfl rfl rfl

theorem MomentumStrategy.SymbolData.calculate_prices (data : SymbolData) :
    data.calculate.prices = data.prices := by
  have hrsi (d : SymbolData) : d.calculateRsi.prices = d.prices := by
    unfold calculateRsi
    split <;> rfl
  have hmomentum (d : SymbolData) : d.calculateMomentum.prices = d.prices := by
    unfold calculateMomentum
    split <;> rfl
  have hvolatility (d : SymbolData) : d.calculateVolatility.prices = d.prices := by
    unfold calculateVolatility
    split <;> rfl
  rw [calculate, hvolatility, hmomentum, hrsi]
  rfl

/-- Once twenty prices are known, all indicators but the volatility are computed from them. -/
theorem MomentumStrategy.SymbolData.calculate_eq {data : SymbolData}
    (h : 20 ≤ data.prices.length) :
    data.calculate =
      { data with
        sma20 := sma20Of data.prices
        sma50 := meanOf data.prices
        rsi := rsiOf data.prices
        momentum := momentumOf data.prices
        volatility :=
          if data.returns.length < 2 then data.volatility
          else sqrt (varianceOf data.returns) * sqrt (252 * 390) } := by
  have hrsi : ¬ data.prices.length < 15 := by omega
  have hmomentum : ¬ data.prices.length < 20 := by omega
  have hstrength : data.calculateSma.calculateRsi =
      { data with
        sma20 := sma20Of data.prices, sma50 := meanOf data.prices, rsi := rsiOf data.prices } :=
    if_neg hrsi
  have hchange : data.calculateSma.calculateRsi.calculateMomentum =
      { data with
        sma20 := sma20Of data.prices, sma50 := meanOf data.prices, rsi := rsiOf data.prices
        momentum := momentumOf data.prices } := by
    rw [hstrength]
    exact if_neg hmomentum
  rw [calculate, hchange]
  by_cases hshort : data.returns.length < 2
  · rw [if_pos hshort]
    exact if_pos hshort
  · rw [if_neg hshort]
    exact if_neg hshort

/-- The indicators leave the windows. -/
theorem WeightedStrategy.SignalData.calculate_windows (data : SignalData) (tick : Tick) :
    (data.calculate tick).prices = data.prices ∧ (data.calculate tick).volumes = data.volumes := by
  have hsma (d : SignalData) :
      d.calculateSma.prices = d.prices ∧ d.calculateSma.volumes = d.volumes := by
    unfold calculateSma
    dsimp only
    split <;> split <;> exact ⟨rfl, rfl⟩
  have hrsi (d : SignalData) :
      d.calculateRsi.prices = d.prices ∧ d.calculateRsi.volumes = d.volumes := by
    unfold calculateRsi
    split <;> exact ⟨rfl, rfl⟩
  have hmomentum (d : SignalData) :
      d.calculateMomentum.prices = d.prices ∧ d.calculateMomentum.volumes = d.volumes := by
    unfold calculateMomentum
    split <;> exact ⟨rfl, rfl⟩
  have hratio (d : SignalData) :
      d.calculateVolumeRatio.prices = d.prices ∧ d.calculateVolumeRatio.volumes = d.volumes := by
    unfold calculateVolumeRatio
    split <;> exact ⟨rfl, rfl⟩
  have hvwap (d : SignalData) :
      (d.calculateVwap tick).prices = d.prices ∧ (d.calculateVwap tick).volumes = d.volumes := by
    unfold calculateVwap
    dsimp only
    split <;> split <;> exact ⟨rfl, rfl⟩
  unfold calculate
  rw [(hvwap _).1, (hvwap _).2, (hratio _).1, (hratio _).2, (hmomentum _).1, (hmomentum _).2,
    (hrsi _).1, (hrsi _).2]
  exact hsma data

namespace LiveStrategy

def pnl : LiveStrategy → ℚ
  | .momentum s => s.pnl
  | .weighted s => s.pnl

def trailingStopPct : LiveStrategy → ℚ
  | .momentum s => s.trailingStopPct
  | .weighted s => s.trailingStopPct

def maxHoldSeconds : LiveStrategy → ℚ
  | .momentum s => s.maxHoldSeconds
  | .weighted s => s.maxHoldSeconds

/-- The number of prices a strategy waits for. -/
def warmUp : LiveStrategy → Nat
  | .momentum _ => 50
  | .weighted _ => 30

/-- The price window of a symbol. -/
def window (s : LiveStrategy) (symbol : String) : List ℚ :=
  match s with
  | .momentum s => (s.symbolData symbol).prices
  | .weighted s => (s.signalData symbol).prices

/-- Whether a tick finds, or makes, the strategy warm for its symbol. -/
def Warm (s : LiveStrategy) (tick : Tick) : Prop :=
  s.warmUp ≤ (pushWindow 50 (s.window tick.symbol) tick.price).length

instance (s : LiveStrategy) (tick : Tick) : Decidable (s.Warm tick) :=
  inferInstanceAs (Decidable (_ ≤ _))

/-- The exit test of a warm strategy, with the indicators that include the tick. -/
def exitTest (s : LiveStrategy) (tick : Tick) (now : UInt64) (p : PositionState) : Option String :=
  match s with
  | .momentum s => s.exitReason ((s.symbolData tick.symbol).recordTick tick).calculate tick now p
  | .weighted s =>
    s.exitReason (s.scored ((s.signalData tick.symbol).recordTick tick) tick).1 tick now p

/-! ## One tick -/

/-- A tick that comes before the strategy is warm is quiet. -/
theorem generateSignal_cold (s : LiveStrategy) {tick : Tick} (now : UInt64) (h : ¬ s.Warm tick) :
    (s.generateSignal tick now).1 = { symbol := tick.symbol } ∧
      (s.generateSignal tick now).2.position = s.position ∧
      (s.generateSignal tick now).2.pnl = s.pnl := by
  cases s with
  | momentum s =>
    have hshort : ((s.symbolData tick.symbol).recordTick tick).prices.length < 50 := not_le.1 h
    have hkept : OnlyAt tick.symbol (fun p p' => p' = p) _ _ :=
      onlyAt_insert MomentumStrategy.SymbolData.toPositionState s.data tick.symbol
        ((s.symbolData tick.symbol).recordTick tick) {} rfl
    unfold generateSignal MomentumStrategy.generateSignal
    simp only [if_pos hshort]
    exact ⟨trivial, hkept.eq, rfl⟩
  | weighted s =>
    have hshort : ((s.signalData tick.symbol).recordTick tick).prices.length < 30 := not_le.1 h
    have hkept : OnlyAt tick.symbol (fun p p' => p' = p) _ _ :=
      onlyAt_insert WeightedStrategy.SignalData.toPositionState s.data tick.symbol
        ((s.signalData tick.symbol).recordTick tick) {} rfl
    unfold generateSignal WeightedStrategy.generateSignal
    simp only [if_pos hshort]
    exact ⟨trivial, hkept.eq, rfl⟩

/-- What a tick does to a warm strategy. -/
theorem generateSignal_warm (s : LiveStrategy) {tick : Tick} (now : UInt64) (h : s.Warm tick) :
    OnlyAt tick.symbol
      (fun p p' => Traded s.positionSize s.trailingStopPct tick now (s.exitTest tick now) p p'
        (s.generateSignal tick now).1 ((s.generateSignal tick now).2.pnl - s.pnl))
      s.position (s.generateSignal tick now).2.position := by
  cases s with
  | momentum s =>
    have hlong : ¬ ((s.symbolData tick.symbol).recordTick tick).prices.length < 50 := not_lt.2 h
    have htraded := trade_traded s.positionSize s.trailingStopPct tick now
      (s.exitReason ((s.symbolData tick.symbol).recordTick tick).calculate tick now) (9 / 10)
      (s.entry ((s.symbolData tick.symbol).recordTick tick).calculate tick)
      (s.position tick.symbol)
    simp only [generateSignal, MomentumStrategy.generateSignal, if_neg hlong, pnl, positionSize,
      trailingStopPct, add_sub_cancel_left, MomentumStrategy.SymbolData.calculate_toPositionState,
      MomentumStrategy.SymbolData.recordTick_toPositionState]
    exact onlyAt_insert MomentumStrategy.SymbolData.toPositionState _ _ _ _ htraded
  | weighted s =>
    have hlong : ¬ ((s.signalData tick.symbol).recordTick tick).prices.length < 30 := not_lt.2 h
    have htraded := trade_traded s.positionSize s.trailingStopPct tick now
      (s.exitReason (s.scored ((s.signalData tick.symbol).recordTick tick) tick).1 tick now)
      (s.scored ((s.signalData tick.symbol).recordTick tick) tick).1
      (s.entry (s.scored ((s.signalData tick.symbol).recordTick tick) tick).1
        (s.scored ((s.signalData tick.symbol).recordTick tick) tick).2)
      (s.position tick.symbol)
    simp only [generateSignal, WeightedStrategy.generateSignal, if_neg hlong, pnl, positionSize,
      trailingStopPct, add_sub_cancel_left, WeightedStrategy.scored_toPositionState,
      WeightedStrategy.SignalData.recordTick_toPositionState]
    exact onlyAt_insert WeightedStrategy.SignalData.toPositionState _ _ _ _ htraded

theorem exitDue_iff (s : LiveStrategy) (tick : Tick) (now : UInt64) :
    s.exitDue tick now = true ↔ s.Warm tick ∧ ∃ reason, s.exitTest tick now
      ((s.position tick.symbol).raiseStop s.trailingStopPct tick.price) = some reason := by
  rw [← Option.isSome_iff_exists]
  cases s with
  | momentum s =>
    simp only [exitDue, MomentumStrategy.exitDue, Bool.and_eq_true, decide_eq_true_iff,
      MomentumStrategy.SymbolData.recordTick_toPositionState]
    exact Iff.rfl
  | weighted s =>
    simp only [exitDue, WeightedStrategy.exitDue, Bool.and_eq_true, decide_eq_true_iff,
      WeightedStrategy.SignalData.recordTick_toPositionState]
    exact Iff.rfl

/-! ## The windows -/

theorem momentum_react_prices (s : MomentumStrategy) (data : MomentumStrategy.SymbolData)
    (tick : Tick) (now : UInt64) :
    (s.react data tick now).2.prices = pushWindow 50 data.prices tick.price := by
  unfold MomentumStrategy.react
  dsimp only
  split
  · rfl
  · dsimp only
    rw [MomentumStrategy.SymbolData.calculate_prices]
    rfl

theorem weighted_react_prices (s : WeightedStrategy) (data : WeightedStrategy.SignalData)
    (tick : Tick) (now : UInt64) :
    (s.react data tick now).2.prices = pushWindow 50 data.prices tick.price := by
  unfold WeightedStrategy.react
  dsimp only
  split
  · rfl
  · exact ((data.recordTick tick).calculate_windows tick).1

/-- The window of a symbol, from what an event of the symbol reads. -/
theorem window_eq_view (s : LiveStrategy) (symbol : String) :
    s.window symbol = Sum.elim (fun v => v.2.prices) (fun v => v.2.prices) (s.view symbol) := by
  cases s <;> rfl

/-- An event leaves the windows of the other symbols. -/
theorem handle_window_of_ne (s : LiveStrategy) {event : StrategyEvent} {symbol : String}
    (h : symbol ≠ event.symbol) : (s.handle event).2.window symbol = s.window symbol := by
  rw [window_eq_view, window_eq_view, handle_view, Function.update_of_ne h]

/-- A tick enters the window of its symbol, the other events leave it. -/
theorem handle_window (s : LiveStrategy) (event : StrategyEvent) :
    (s.handle event).2.window event.symbol =
      match event with
      | .tick tick _ => pushWindow 50 (s.window tick.symbol) tick.price
      | event => s.window event.symbol := by
  rw [window_eq_view, handle_view, Function.update_self]
  cases s with
  | momentum s =>
    cases event with
    | tick tick now => exact momentum_react_prices _ _ tick now
    | _ => rfl
  | weighted s =>
    cases event with
    | tick tick now => exact weighted_react_prices _ _ tick now
    | _ => rfl

theorem length_pushWindow (n : Nat) (xs : List ℚ) (x : ℚ) :
    (pushWindow n xs x).length = min n (xs.length + 1) := by
  rw [pushWindow, List.length_drop, List.length_append, List.length_singleton]
  omega

theorem warmUp_le (s : LiveStrategy) : s.warmUp ≤ 50 := by
  cases s with
  | momentum => exact le_refl 50
  | weighted => exact Nat.le_of_ble_eq_true rfl

/-- A strategy that is warm for a symbol stays so. -/
theorem warm_of_le {s : LiveStrategy} {tick : Tick} (h : s.warmUp ≤ (s.window tick.symbol).length) :
    s.Warm tick := by
  have hmax := s.warmUp_le
  rw [Warm, length_pushWindow]
  omega

/-! ## The parameters -/

/-- The strategy without data, P&L and positions. -/
def settings : LiveStrategy → LiveStrategy
  | .momentum s => .momentum s.settings
  | .weighted s => .weighted s.settings

/-- No event changes the parameters. -/
theorem handle_settings (s : LiveStrategy) (event : StrategyEvent) :
    (s.handle event).2.settings = s.settings := by
  cases s with
  | momentum s =>
    cases event with
    | tick tick now =>
      simp only [handle, generateSignal, MomentumStrategy.generateSignal]
      split <;> rfl
    | filled order =>
      simp only [handle, onOrderFilled, MomentumStrategy.onOrderFilled]
      split <;> rfl
    | rejected order => rfl
    | resetVwap symbol => rfl
  | weighted s =>
    cases event with
    | tick tick now =>
      simp only [handle, generateSignal, WeightedStrategy.generateSignal]
      split <;> rfl
    | filled order =>
      simp only [handle, onOrderFilled, WeightedStrategy.onOrderFilled]
      split <;> rfl
    | rejected order => rfl
    | resetVwap symbol =>
      simp only [handle, resetVwap, WeightedStrategy.resetVwap]
      split <;> rfl

theorem handle_trailingStopPct (s : LiveStrategy) (event : StrategyEvent) :
    (s.handle event).2.trailingStopPct = s.trailingStopPct := by
  have hsettings (t : LiveStrategy) : t.settings.trailingStopPct = t.trailingStopPct := by
    cases t <;> rfl
  rw [← hsettings, handle_settings, hsettings]

theorem handle_maxHoldSeconds (s : LiveStrategy) (event : StrategyEvent) :
    (s.handle event).2.maxHoldSeconds = s.maxHoldSeconds := by
  have hsettings (t : LiveStrategy) : t.settings.maxHoldSeconds = t.maxHoldSeconds := by
    cases t <;> rfl
  rw [← hsettings, handle_settings, hsettings]

theorem handle_warmUp (s : LiveStrategy) (event : StrategyEvent) :
    (s.handle event).2.warmUp = s.warmUp := by
  have hsettings (t : LiveStrategy) : t.settings.warmUp = t.warmUp := by cases t <;> rfl
  rw [← hsettings, handle_settings, hsettings]

/-! ## The other events -/

/-- The commission is all that a fill books. -/
theorem onOrderFilled_pnl (s : LiveStrategy) (order : Order) :
    (s.onOrderFilled order).pnl = s.pnl - order.price * order.quantity * (5 / 10000) := by
  have hbook (t : Strategy) :
      (t.bookFill order).pnl = t.pnl - order.price * order.quantity * (5 / 10000) := by
    unfold Strategy.bookFill Strategy.updatePosition
    dsimp only
    split
    · rfl
    · split <;> rfl
  cases s with
  | momentum s =>
    unfold onOrderFilled MomentumStrategy.onOrderFilled
    dsimp only
    split <;> exact hbook s.toStrategy
  | weighted s =>
    unfold onOrderFilled WeightedStrategy.onOrderFilled
    dsimp only
    split <;> exact hbook s.toStrategy

@[simp] theorem resetVwap_position (s : LiveStrategy) (symbol : String) :
    (s.resetVwap symbol).position = s.position := by
  cases s with
  | momentum s => rfl
  | weighted s =>
    funext y
    change ((s.resetVwap symbol).view y).2.toPositionState = (s.view y).2.toPositionState
    rw [s.resetVwap_view symbol, Function.update_apply]
    split
    · next hy => rw [hy]; rfl
    · rfl

theorem onOrderRejected_pnl (s : LiveStrategy) (order : Order) :
    (s.onOrderRejected order).pnl = s.pnl := by
  cases s <;> rfl

/-- An event leaves the other symbols. -/
theorem handle_position_of_ne (s : LiveStrategy) {event : StrategyEvent} {symbol : String}
    (h : symbol ≠ event.symbol) : (s.handle event).2.position symbol = s.position symbol := by
  cases event with
  | tick tick now => exact (s.generateSignal_positions tick now).others symbol h
  | filled order => exact (s.onOrderFilled_positions order).others symbol h
  | rejected order => exact (s.onOrderRejected_positions order).others symbol h
  | resetVwap y => exact congrFun (s.resetVwap_position y) symbol

/-- The events other than ticks change no more than the flags of a position, and open none. -/
theorem handle_position_of_callback (s : LiveStrategy) {event : StrategyEvent}
    (h : ∀ tick now, event ≠ .tick tick now) :
    let p := s.position event.symbol
    let p' := (s.handle event).2.position event.symbol
    (p'.inPosition = true → p.inPosition = true) ∧ p'.highestPrice = p.highestPrice ∧
      p'.trailingStop = p.trailingStop ∧ p'.entryTime = p.entryTime := by
  cases event with
  | tick tick now => exact absurd rfl (h tick now)
  | filled order =>
    have hchange := (s.onOrderFilled_positions order).here
    simp only [LiveStrategy.handle, StrategyEvent.symbol, hchange, PositionState.filled]
    split <;> simp
  | rejected order =>
    have hchange := (s.onOrderRejected_positions order).here
    simp only [LiveStrategy.handle, StrategyEvent.symbol, hchange, PositionState.rejected]
    split <;> simp
  | resetVwap y =>
    have hchange := congrFun (s.resetVwap_position y) y
    simp only [LiveStrategy.handle, StrategyEvent.symbol, hchange]
    simp

end LiveStrategy

end TradingTerminal
