import TradingTerminal.Strategies.LiveTicks
import TradingTerminal.Lib.Run

/-!
# Runs of the weighted strategy

The weighted strategy on all that it can be told, its weights included. Apart from the position
fields, what an event does to the data of a symbol is `observe`; what holds of the data of every run
follows from it by `run_signalData`. The windows are the end of the history (`run_window`).
-/

namespace TradingTerminal

open Lib

/-- What the weighted strategy is told. -/
inductive WeightedEvent where
  | tick (tick : Tick) (now : UInt64)
  | filled (order : Order)
  | rejected (order : Order)
  | resetVwap (symbol : String)
  | setWeights (momentumW rsiW volumeW vwapW smaW : ℚ)

/-- The price of a tick is positive. -/
def WeightedEvent.PositivePrice : WeightedEvent → Prop
  | .tick t _ => 0 < t.price
  | _ => True

instance : DecidablePred WeightedEvent.PositivePrice
  | .tick t _ => inferInstanceAs (Decidable (0 < t.price))
  | .filled _ => .isTrue trivial
  | .rejected _ => .isTrue trivial
  | .resetVwap _ => .isTrue trivial
  | .setWeights _ _ _ _ _ => .isTrue trivial

/-- The ticks of a symbol, in order. -/
def ticksOf (symbol : String) (events : List WeightedEvent) : List Tick :=
  events.filterMap fun event =>
    match event with
    | .tick tick _ => if tick.symbol = symbol then some tick else none
    | _ => none

theorem ticksOf_concat (symbol : String) (events : List WeightedEvent) (event : WeightedEvent) :
    ticksOf symbol (events ++ [event]) = ticksOf symbol events ++ ticksOf symbol [event] :=
  List.filterMap_append

theorem mem_ticksOf {symbol : String} {events : List WeightedEvent} {tick : Tick}
    (h : tick ∈ ticksOf symbol events) : ∃ now, .tick tick now ∈ events := by
  obtain ⟨event, hevent, hsome⟩ := List.mem_filterMap.1 h
  cases event with
  | tick t now =>
    dsimp only at hsome
    split at hsome
    · obtain rfl := Option.some.inj hsome
      exact ⟨now, hevent⟩
    · cases hsome
  | _ => cases hsome

namespace WeightedStrategy

def handle (s : WeightedStrategy) : WeightedEvent → WeightedStrategy
  | .tick tick now => (s.generateSignal tick now).2
  | .filled order => s.onOrderFilled order
  | .rejected order => s.onOrderRejected order
  | .resetVwap symbol => s.resetVwap symbol
  | .setWeights momentumW rsiW volumeW vwapW smaW => s.setWeights momentumW rsiW volumeW vwapW smaW

/-- Whether a score is computed on a tick. -/
def Scores (s : WeightedStrategy) (tick : Tick) : Prop :=
  30 ≤ ((s.signalData tick.symbol).recordTick tick).prices.length

instance (s : WeightedStrategy) (tick : Tick) : Decidable (s.Scores tick) :=
  inferInstanceAs (Decidable (_ ≤ _))

/-- The data of the tick's symbol with the indicators that include the tick. -/
def scoredData (s : WeightedStrategy) (tick : Tick) : SignalData :=
  (s.scored ((s.signalData tick.symbol).recordTick tick) tick).2

/-- The score computed on a tick. -/
def score (s : WeightedStrategy) (tick : Tick) : ℚ :=
  (s.scored ((s.signalData tick.symbol).recordTick tick) tick).1

/-- What an event does to the data of a symbol, the position fields aside. -/
def observe (s : WeightedStrategy) (symbol : String) (data : SignalData) :
    WeightedEvent → SignalData
  | .tick tick _ =>
    if tick.symbol = symbol then
      let data := data.recordTick tick
      if data.prices.length < 30 then data else (s.scored data tick).2
    else data
  | .resetVwap y =>
    if y = symbol then { data with cumulativePv := 0, cumulativeV := 0, vwap := 0 } else data
  | _ => data

theorem observe_tick_self (s : WeightedStrategy) (data : SignalData) (tick : Tick) (now : UInt64) :
    s.observe tick.symbol data (.tick tick now) =
      if (data.recordTick tick).prices.length < 30 then data.recordTick tick
      else (s.scored (data.recordTick tick) tick).2 :=
  if_pos rfl

theorem observe_tick_of_ne {symbol : String} {tick : Tick} (h : tick.symbol ≠ symbol)
    (s : WeightedStrategy) (data : SignalData) (now : UInt64) :
    s.observe symbol data (.tick tick now) = data :=
  if_neg h

theorem signalData_eq_view (s : WeightedStrategy) (symbol : String) :
    s.signalData symbol = (s.view symbol).2 := rfl

/-- The answer to an order only touches the position fields. -/
theorem signalData_of_callback {s s' : WeightedStrategy} {key : String} {p : PositionState}
    (hview : s'.view = Function.update s.view key
      (s.settings, { s.signalData key with toPositionState := p })) (symbol : String) :
    ∃ position, s'.signalData symbol =
      { s.signalData symbol with toPositionState := position } := by
  rw [signalData_eq_view, hview, Function.update_apply]
  by_cases hs : symbol = key
  · rw [if_pos hs, hs]
    exact ⟨_, rfl⟩
  · rw [if_neg hs]
    exact ⟨_, rfl⟩

theorem handle_signalData (s : WeightedStrategy) (event : WeightedEvent) (symbol : String) :
    ∃ position, (s.handle event).signalData symbol =
      { s.observe symbol (s.signalData symbol) event with toPositionState := position } := by
  cases event with
  | tick tick now =>
    rw [signalData_eq_view, handle, (s.generateSignal_react tick now).2, Function.update_apply]
    by_cases hs : symbol = tick.symbol
    · subst hs
      rw [if_pos rfl, observe, if_pos rfl, react]
      dsimp only
      split
      · exact ⟨_, rfl⟩
      · exact ⟨_, rfl⟩
    · rw [if_neg hs, observe, if_neg (Ne.symm hs)]
      exact ⟨_, rfl⟩
  | filled order => exact signalData_of_callback (s.onOrderFilled_view order) symbol
  | rejected order => exact signalData_of_callback (s.onOrderRejected_view order) symbol
  | resetVwap y =>
    rw [signalData_eq_view, handle, s.resetVwap_view y, Function.update_apply]
    by_cases hs : symbol = y
    · rw [if_pos hs, observe, if_pos hs.symm, hs]
      exact ⟨_, rfl⟩
    · rw [if_neg hs, observe, if_neg (Ne.symm hs)]
      exact ⟨_, rfl⟩
  | setWeights momentumW rsiW volumeW vwapW smaW =>
    have hdata : (s.setWeights momentumW rsiW volumeW vwapW smaW).signalData symbol =
        s.signalData symbol := by
      unfold setWeights
      dsimp only
      split <;> rfl
    rw [handle, hdata]
    exact ⟨_, rfl⟩

/-- What holds of fresh data, does not ask for the position fields and is kept by the events holds
of the data of a symbol in every run. -/
theorem run_signalData {R : List WeightedEvent → SignalData → Prop} {H : WeightedEvent → Prop}
    (symbol : String) (start : R [] {})
    (position : ∀ history data p, R history data → R history { data with toPositionState := p })
    (keep : ∀ (s : WeightedStrategy) history data event, H event → R history data →
      R (history ++ [event]) (s.observe symbol data event))
    {s : WeightedStrategy} (hs : s.signalData symbol = {}) (events : List WeightedEvent)
    (hevents : ∀ event ∈ events, H event) : R events ((run handle s events).signalData symbol) := by
  induction events using List.reverseRecOn with
  | nil =>
    rw [run_nil, hs]
    exact start
  | append_singleton events event ih =>
    obtain ⟨p, hp⟩ := (run handle s events).handle_signalData event symbol
    rw [run_concat, hp]
    refine position _ _ p (keep _ _ _ event (hevents event (by simp)) (ih fun e he => ?_))
    exact hevents e (List.mem_append_left _ he)

/-! ## The windows -/

theorem ticksOf_tick_self (tick : Tick) (now : UInt64) :
    ticksOf tick.symbol [.tick tick now] = [tick] := by
  simp [ticksOf]

theorem ticksOf_tick_of_ne {symbol : String} {tick : Tick} (h : tick.symbol ≠ symbol)
    (now : UInt64) : ticksOf symbol [.tick tick now] = [] := by
  simp [ticksOf, h]

/-- The windows of a symbol after its ticks; the long average waits until they are full. -/
structure WindowOf (ticks : List Tick) (data : SignalData) : Prop where
  prices : data.prices = lastN 50 (ticks.map (·.price))
  volumes : data.volumes = lastN 50 (ticks.map (·.volume))
  sma50 : ticks.length < 50 → data.sma50 = 0

theorem WindowOf.length {ticks : List Tick} {data : SignalData} (h : WindowOf ticks data) :
    data.prices.length = min 50 ticks.length ∧ data.volumes.length = data.prices.length := by
  rw [h.prices, h.volumes, length_lastN, length_lastN, List.length_map, List.length_map]
  exact ⟨rfl, rfl⟩

theorem WindowOf.recordTick {ticks : List Tick} {data : SignalData} (h : WindowOf ticks data)
    (tick : Tick) : WindowOf (ticks ++ [tick]) (data.recordTick tick) := by
  have hvolumes : (data.recordTick tick).volumes = pushWindow 50 data.volumes tick.volume := by
    rw [SignalData.recordTick, pushWindow, List.length_append, List.length_append, h.length.2]
    rfl
  constructor
  · rw [List.map_append, List.map_singleton, ← pushWindow_lastN, ← h.prices]
    rfl
  · rw [hvolumes, List.map_append, List.map_singleton, ← pushWindow_lastN, ← h.volumes]
  · rw [List.length_append, List.length_singleton]
    exact fun hshort => h.sma50 (by omega)

/-! ## The indicators of a scored tick -/

section Scored

variable {data : SignalData} {tick : Tick}

/-- The mean volume of the newer half of a window over that of the older half. -/
def volumeRatioOf (volumes : List ℚ) : ℚ :=
  let half := volumes.length / 2
  let avgOld := (volumes.take half).sum / half
  let avgNew := (volumes.drop half).sum / (volumes.length - half : Nat)
  if avgOld > 0 then avgNew / avgOld else 1

/-- Once twenty prices and volumes are known, all indicators but two are computed from the windows
alone. -/
theorem calculate_eq (tick : Tick) (hprices : 20 ≤ data.prices.length)
    (hvolumes : 20 ≤ data.volumes.length) :
    data.calculate tick =
      ({ data with
          sma20 := sma20Of data.prices
          sma50 := if data.prices.length ≥ 50 then meanOf data.prices else data.sma50
          rsi := rsiOf data.prices
          momentum := momentumOf data.prices
          volumeRatio := volumeRatioOf data.volumes } : SignalData).calculateVwap tick := by
  have hrsi : ¬ data.prices.length < 15 := by omega
  have hmomentum : ¬ data.prices.length < 20 := by omega
  have hratio : ¬ data.volumes.length < 20 := by omega
  unfold SignalData.calculate SignalData.calculateSma
  rw [if_pos hprices]
  dsimp only
  by_cases h50 : data.prices.length ≥ 50
  · rw [if_pos h50, if_pos h50]
    simp only [SignalData.calculateRsi, SignalData.calculateMomentum,
      SignalData.calculateVolumeRatio, if_neg hrsi, if_neg hmomentum, if_neg hratio]
    rfl
  · rw [if_neg h50, if_neg h50]
    simp only [SignalData.calculateRsi, SignalData.calculateMomentum,
      SignalData.calculateVolumeRatio, if_neg hrsi, if_neg hmomentum, if_neg hratio]
    rfl

/-- `calculate_vwap` writes the sums and, where the volume is positive, what is derived from them. -/
theorem calculateVwap_eq (data : SignalData) (tick : Tick) :
    data.calculateVwap tick =
      let pv := data.cumulativePv + if tick.volume > 0 then tick.price * tick.volume else 0
      let v := data.cumulativeV + if tick.volume > 0 then tick.volume else 0
      { data with
        cumulativePv := pv
        cumulativeV := v
        vwap := if v > 0 then pv / v else data.vwap
        vwapDistance := if v > 0 then (tick.price - pv / v) / (pv / v) else data.vwapDistance } := by
  unfold SignalData.calculateVwap
  by_cases hvolume : tick.volume > 0
  · simp only [if_pos hvolume]
    split <;> rfl
  · simp only [if_neg hvolume, add_zero]
    split <;> rfl

/-- What the data of a symbol holds once a tick was scored, of the indicators that are computed from
the windows alone; `ticks` are the ticks of the symbol up to this one. -/
structure Indicators (ticks : List Tick) (data : SignalData) : Prop extends
    WindowOf ticks data where
  sma20 : data.sma20 = sma20Of data.prices
  longMean : data.sma50 = if 50 ≤ ticks.length then meanOf data.prices else 0
  rsi : data.rsi = rsiOf data.prices
  momentum : data.momentum = momentumOf data.prices
  volumeRatio : data.volumeRatio = volumeRatioOf data.volumes

variable {s : WeightedStrategy}

theorem scores_iff {ticks : List Tick} (h : WindowOf ticks (s.signalData tick.symbol)) :
    s.Scores tick ↔ 30 ≤ ticks.length + 1 := by
  have hlength := (h.recordTick tick).length.1
  rw [List.length_append, List.length_singleton] at hlength
  rw [Scores, hlength]
  omega

theorem calculate_indicators {ticks : List Tick} (tick : Tick) (h : WindowOf ticks data)
    (hlength : 20 ≤ ticks.length) : Indicators ticks (data.calculate tick) := by
  have hwindows := data.calculate_windows tick
  have hprices : 20 ≤ data.prices.length := by
    rw [h.length.1]
    omega
  have hfull : data.prices.length ≥ 50 ↔ 50 ≤ ticks.length := by
    rw [h.length.1]
    omega
  have hlong : (if data.prices.length ≥ 50 then meanOf data.prices else data.sma50) =
      if 50 ≤ ticks.length then meanOf data.prices else 0 := by
    rw [if_congr hfull rfl rfl]
    split
    · rfl
    · next hshort => exact h.sma50 (by omega)
  have heq := calculate_eq tick hprices (h.length.2.symm ▸ hprices)
  rw [calculateVwap_eq, hlong] at heq
  refine ⟨⟨hwindows.1.trans h.prices, hwindows.2.trans h.volumes, fun hshort => ?_⟩, ?_, ?_, ?_, ?_,
    ?_⟩
  · rw [heq]
    exact if_neg (by omega)
  all_goals rw [heq]

theorem scoredData_indicators {ticks : List Tick} (h : WindowOf ticks (s.signalData tick.symbol))
    (hscores : s.Scores tick) : Indicators (ticks ++ [tick]) (s.scoredData tick) := by
  have hlength := (scores_iff h).1 hscores
  have hindicators := calculate_indicators tick (h.recordTick tick)
    (by rw [List.length_append, List.length_singleton]; omega)
  exact ⟨⟨hindicators.prices, hindicators.volumes, hindicators.sma50⟩, hindicators.sma20,
    hindicators.longMean, hindicators.rsi, hindicators.momentum, hindicators.volumeRatio⟩

end Scored

/-! ## The windows of a run -/

/-- **The windows of a run** are the end of its history. -/
theorem run_window {s : WeightedStrategy} (symbol : String) (hs : s.signalData symbol = {})
    (events : List WeightedEvent) :
    WindowOf (ticksOf symbol events) ((run handle s events).signalData symbol) := by
  refine run_signalData (R := fun history data => WindowOf (ticksOf symbol history) data)
    (H := fun _ => True) symbol ⟨rfl, rfl, fun _ => rfl⟩
    (fun _ _ _ h => ⟨h.prices, h.volumes, h.sma50⟩)
    (fun s history data event _ h => ?_) hs events fun _ _ => trivial
  rw [ticksOf_concat]
  cases event with
  | tick tick now =>
    by_cases hsymbol : tick.symbol = symbol
    · subst hsymbol
      rw [observe_tick_self, ticksOf_tick_self]
      have hrecord := h.recordTick tick
      have hlength := hrecord.length.1
      split
      · exact hrecord
      · have hscored := calculate_indicators tick hrecord (by omega)
        exact ⟨hscored.prices, hscored.volumes, hscored.sma50⟩
    · rw [observe_tick_of_ne hsymbol, ticksOf_tick_of_ne hsymbol, List.append_nil]
      exact h
  | resetVwap y =>
    rw [observe, show ticksOf symbol [.resetVwap y] = [] from rfl, List.append_nil]
    split
    · exact ⟨h.prices, h.volumes, h.sma50⟩
    · exact h
  | _ => exact (List.append_nil (ticksOf symbol history)).symm ▸ h

end WeightedStrategy

end TradingTerminal
