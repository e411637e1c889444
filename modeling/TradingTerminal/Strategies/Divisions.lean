import TradingTerminal.Strategies.CheckedIntraday
import TradingTerminal.Strategies.PriceScale

/-!
# Divisions by zero

Over runs of the three strategies on non-negative prices and volumes, when no division of
`generate_signal` is by zero. Most divisors are never zero: they are counted, or guarded where they
are used. The others are the price of twenty ticks ago, the VWAP and the entry price of a position;
and in the enhanced strategy the capital of the breaker, the odds of the Kelly sizer and the size of
the strategy. Up to the first division by zero a run is what the code does.
-/

namespace TradingTerminal

open Lib

/-- A tick of a feed: nothing keeps it from printing a zero. -/
def Tick.NonNegative (tick : Tick) : Prop := 0 ≤ tick.price ∧ 0 ≤ tick.volume

instance : DecidablePred Tick.NonNegative :=
  fun tick => inferInstanceAs (Decidable (0 ≤ tick.price ∧ 0 ≤ tick.volume))

/-! ## The momentum strategy -/

def StrategyEvent.NonNegative : StrategyEvent → Prop
  | .tick t _ => t.NonNegative
  | _ => True

instance : DecidablePred StrategyEvent.NonNegative
  | .tick t _ => inferInstanceAs (Decidable t.NonNegative)
  | .filled _ => .isTrue trivial
  | .rejected _ => .isTrue trivial
  | .resetVwap _ => .isTrue trivial

/-- A position that is held after a tick was held before it, or was entered at its price. -/
theorem trade_held (size pct : ℚ) (tick : Tick) (now : UInt64)
    (exitReason : PositionState → Option String) (exitConfidence : ℚ)
    (entry : Option (String × ℚ)) (p : PositionState)
    (h : (trade size pct tick now exitReason exitConfidence entry p).position.inPosition = true) :
    (p.inPosition = true ∧
      (trade size pct tick now exitReason exitConfidence entry p).position.entryPrice =
        p.entryPrice) ∨
    (entry ≠ none ∧
      (trade size pct tick now exitReason exitConfidence entry p).position.entryPrice =
        tick.price) := by
  have hraise := p.raiseStop_entryPrice pct tick.price
  revert h
  unfold trade
  dsimp only
  split
  · next hin =>
    intro _
    refine Or.inl ⟨hin, ?_⟩
    split
    · split
      · exact hraise
      · exact hraise
    · exact hraise
  · next hflat =>
    split
    · split
      · exact fun _ => Or.inr ⟨Option.some_ne_none _, rfl⟩
      · exact fun h => absurd h hflat
    · exact fun h => absurd h hflat

namespace MomentumStrategy

/-- The strategy after an event. -/
def step (s : MomentumStrategy) (event : StrategyEvent) : MomentumStrategy := (s.handle event).2

/-- No division on a tick is by zero. -/
def NoZeroDivisor (s : MomentumStrategy) : StrategyEvent → Prop
  | .tick tick now => Checked.generateSignal s tick now ≠ none
  | _ => True

instance (s : MomentumStrategy) : DecidablePred s.NoZeroDivisor
  | .tick tick now => inferInstanceAs (Decidable (Checked.generateSignal s tick now ≠ none))
  | .filled _ => .isTrue trivial
  | .rejected _ => .isTrue trivial
  | .resetVwap _ => .isTrue trivial

/-- A scored tick finds the price of twenty ticks ago non-zero. -/
def OldPriceNonzero (s : MomentumStrategy) : StrategyEvent → Prop
  | .tick tick _ =>
    let prices := pushWindow 50 (s.symbolData tick.symbol).prices tick.price
    50 ≤ prices.length → Checked.oldPrice prices ≠ 0
  | _ => True

instance (s : MomentumStrategy) : DecidablePred s.OldPriceNonzero
  | .tick _ _ => inferInstanceAs (Decidable (_ → _ ≠ _))
  | .filled _ => .isTrue trivial
  | .rejected _ => .isTrue trivial
  | .resetVwap _ => .isTrue trivial

/-- The prices of a symbol are not negative, and a position was not entered at zero. -/
structure SymbolData.Sound (data : SymbolData) : Prop where
  prices : ∀ price ∈ data.prices, 0 ≤ price
  entry : data.inPosition = true → 0 < data.entryPrice

theorem SymbolData.calculate_entryInputs {data : SymbolData} (h : 20 ≤ data.prices.length) :
    data.calculate.sma20 = sma20Of data.prices ∧
      data.calculate.momentum = momentumOf data.prices := by
  rw [calculate_eq h]
  exact ⟨rfl, rfl⟩

/-- A gain on a price that is not zero ends at a price above zero. -/
theorem pos_of_momentumOf {prices : List ℚ} (hprices : ∀ price ∈ prices, 0 ≤ price)
    (hold : Checked.oldPrice prices ≠ 0) (h : 0 < momentumOf prices) : 0 < prices.getLastD 0 := by
  have hnonneg : 0 ≤ Checked.oldPrice prices := by
    unfold Checked.oldPrice
    rw [List.getD_eq_getElem?_getD]
    cases hget : prices[prices.length - 20]? with
    | none => exact le_refl 0
    | some price => exact hprices price (List.mem_of_getElem? hget)
  have hpos : 0 < Checked.oldPrice prices := lt_of_le_of_ne hnonneg hold.symm
  have hrise : 0 < prices.getLastD 0 - Checked.oldPrice prices :=
    (div_pos_iff_of_pos_right hpos).1 h
  linarith

/-- An entry is at a price above zero. -/
theorem entry_pos {s : MomentumStrategy} {data : SymbolData} {tick : Tick}
    (hprices : ∀ price ∈ data.prices, 0 ≤ price) (hlast : data.prices.getLastD 0 = tick.price)
    (hlong : 20 ≤ data.prices.length) (hold : Checked.oldPrice data.prices ≠ 0)
    (h : s.entry data.calculate tick ≠ none) : 0 < tick.price := by
  obtain ⟨hsma, hmomentum⟩ := SymbolData.calculate_entryInputs hlong
  have hrise (hpos : 0 < momentumOf data.prices) : 0 < tick.price :=
    hlast ▸ pos_of_momentumOf hprices hold hpos
  revert h
  unfold entry
  rw [hsma, hmomentum]
  split
  · next hcross =>
    intro _
    have hmean : 0 ≤ sma20Of data.prices :=
      div_nonneg (List.sum_nonneg fun x hx => hprices x (mem_of_mem_lastN hx)) (by norm_num)
    linarith [hcross.1]
  · split
    · next hsold => exact fun _ => hrise hsold.2
    · split
      · next hstrong => exact fun _ => hrise (by linarith [hstrong.1])
      · exact fun h => absurd rfl h

theorem SymbolData.Sound.recordTick {data : SymbolData} (h : data.Sound) {tick : Tick}
    (hprice : 0 ≤ tick.price) : ∀ price ∈ (data.recordTick tick).prices, 0 ≤ price := by
  intro price hmem
  rcases List.mem_append.1 (List.mem_of_mem_drop hmem) with hmem | hmem
  · exact h.prices price hmem
  · rw [List.mem_singleton.1 hmem]
    exact hprice

/-- A tick that finds the price of twenty ticks ago non-zero keeps the data of its symbol sound. -/
theorem react_sound (s : MomentumStrategy) {data : SymbolData} (h : data.Sound) {tick : Tick}
    (now : UInt64) (hprice : 0 ≤ tick.price)
    (hold : 50 ≤ (data.recordTick tick).prices.length →
      Checked.oldPrice (data.recordTick tick).prices ≠ 0) :
    (s.react data tick now).2.Sound := by
  have hprices := h.recordTick hprice
  have hlast : (data.recordTick tick).prices.getLastD 0 = tick.price := by
    have hpush : (data.recordTick tick).prices = pushWindow 50 data.prices tick.price := rfl
    rw [hpush, getLastD_pushWindow (by omega)]
  unfold react
  dsimp only
  split
  · exact ⟨hprices, h.entry⟩
  · next hlong =>
    dsimp only
    constructor
    · rw [SymbolData.calculate_prices]
      exact hprices
    · intro hin
      dsimp only at hin ⊢
      have hcases := trade_held s.positionSize s.trailingStopPct tick now
        (s.exitReason (data.recordTick tick).calculate tick now) (9 / 10)
        (s.entry (data.recordTick tick).calculate tick)
        (data.recordTick tick).calculate.toPositionState hin
      rcases hcases with ⟨hheld, hsame⟩ | ⟨hentry, hprice⟩
      · rw [SymbolData.calculate_toPositionState] at hheld
        rw [hsame, SymbolData.calculate_toPositionState]
        exact h.entry hheld
      · rw [hprice]
        exact entry_pos hprices hlast (by omega) (hold (by omega)) hentry

/-- The data of every symbol is sound. -/
def Sound (s : MomentumStrategy) : Prop := ∀ symbol, (s.symbolData symbol).Sound

/-- An event that replaces the data of one symbol keeps the rest. -/
theorem Sound.of_view {s s' : MomentumStrategy} (h : s.Sound) {symbol : String}
    {settings : MomentumStrategy} {data : SymbolData}
    (hview : s'.view = Function.update s.view symbol (settings, data)) (hdata : data.Sound) :
    s'.Sound := by
  intro k
  have hk : s'.symbolData k = (Function.update s.view symbol (settings, data) k).2 := by
    rw [← hview]
    rfl
  rw [hk, Function.update_apply]
  split
  · exact hdata
  · exact h k

/-- A callback opens no position and leaves the entry price. -/
theorem SymbolData.Sound.callback {data : SymbolData} (h : data.Sound) {p : PositionState}
    (hheld : p.inPosition = true → data.inPosition = true)
    (hentry : p.entryPrice = data.entryPrice) :
    SymbolData.Sound { data with toPositionState := p } :=
  ⟨h.prices, fun hin => hentry ▸ h.entry (hheld hin)⟩

theorem Sound.step {s : MomentumStrategy} {event : StrategyEvent} (hevent : event.NonNegative)
    (h : s.Sound) (hold : s.OldPriceNonzero event) : (s.step event).Sound := by
  cases event with
  | tick tick now =>
    refine h.of_view (s.generateSignal_react tick now).2 ?_
    exact s.settings.react_sound (h tick.symbol) now hevent.1 hold
  | filled order =>
    refine h.of_view (s.onOrderFilled_view order) ((h order.symbol).callback ?_ ?_)
    · unfold PositionState.filled
      split
      · exact fun hin => absurd hin Bool.false_ne_true
      · exact id
    · unfold PositionState.filled
      split <;> rfl
  | rejected order =>
    refine h.of_view (s.onOrderRejected_view order) ((h order.symbol).callback ?_ ?_)
    · unfold PositionState.rejected
      split
      · exact fun hin => absurd hin Bool.false_ne_true
      · exact id
    · unfold PositionState.rejected
      split <;> rfl
  | resetVwap symbol => exact h

/-- On sound data the price of twenty ticks ago is the only divisor that can be zero. -/
theorem Sound.noZeroDivisor_iff_old {s : MomentumStrategy} (h : s.Sound) (event : StrategyEvent) :
    s.NoZeroDivisor event ↔ s.OldPriceNonzero event := by
  cases event with
  | tick tick now =>
    refine (Checked.generateSignal_eq s tick now).ne_none_iff.trans ⟨fun hall hlong => ?_, ?_⟩
    · exact (hall hlong).1
    · intro hold hlong
      exact ⟨hold hlong, fun hin => ((h tick.symbol).entry hin).ne'⟩
  | _ => exact Iff.rfl

/-- **The momentum strategy** divides by zero exactly where a scored tick comes nineteen ticks after
a price of zero. -/
theorem guarded_noZeroDivisor (positionSize rsiUpper rsiLower : ℚ) {events : List StrategyEvent}
    (hevents : ∀ event ∈ events, event.NonNegative) :
    Guarded step NoZeroDivisor (new positionSize rsiUpper rsiLower) events ↔
      Guarded step OldPriceNonzero (new positionSize rsiUpper rsiLower) events := by
  have hstart : (new positionSize rsiUpper rsiLower).Sound := fun symbol => by
    refine ⟨fun price hprice => ?_, fun hin => ?_⟩
    · cases hprice
    · cases hin
  refine guarded_congr_within (I := Sound) (fun s event hevent h hno => ?_)
    (fun s event _ h => h.noZeroDivisor_iff_old event) hevents hstart
  exact h.step hevent ((h.noZeroDivisor_iff_old event).1 hno)

end MomentumStrategy

/-! ## The weighted strategy -/

def WeightedEvent.NonNegative : WeightedEvent → Prop
  | .tick t _ => t.NonNegative
  | _ => True

instance : DecidablePred WeightedEvent.NonNegative
  | .tick t _ => inferInstanceAs (Decidable t.NonNegative)
  | .filled _ => .isTrue trivial
  | .rejected _ => .isTrue trivial
  | .resetVwap _ => .isTrue trivial
  | .setWeights _ _ _ _ _ => .isTrue trivial

namespace WeightedStrategy

/-- No division on a tick is by zero. -/
def NoZeroDivisor (s : WeightedStrategy) : WeightedEvent → Prop
  | .tick tick now => Checked.generateSignal s tick now ≠ none
  | _ => True

instance (s : WeightedStrategy) : DecidablePred s.NoZeroDivisor
  | .tick tick now => inferInstanceAs (Decidable (Checked.generateSignal s tick now ≠ none))
  | .filled _ => .isTrue trivial
  | .rejected _ => .isTrue trivial
  | .resetVwap _ => .isTrue trivial
  | .setWeights _ _ _ _ _ => .isTrue trivial

/-- A scored tick finds the price of twenty ticks ago, the turnover of a session with volume and the
entry price of a position non-zero. -/
def DivisorsNonzero (s : WeightedStrategy) : WeightedEvent → Prop
  | .tick tick _ => Checked.Defined s tick
  | _ => True

instance (s : WeightedStrategy) : DecidablePred s.DivisorsNonzero
  | .tick tick _ => inferInstanceAs (Decidable (Checked.Defined s tick))
  | .filled _ => .isTrue trivial
  | .rejected _ => .isTrue trivial
  | .resetVwap _ => .isTrue trivial
  | .setWeights _ _ _ _ _ => .isTrue trivial

/-- The bound that the RSI score divides by stays as it is declared. -/
theorem handle_rsiLower (s : WeightedStrategy) (event : WeightedEvent) :
    (s.handle event).rsiLower = s.rsiLower := by
  cases event with
  | tick tick now =>
    unfold handle generateSignal
    dsimp only
    split <;> rfl
  | filled order =>
    unfold handle onOrderFilled
    dsimp only
    split <;> rfl
  | rejected order => rfl
  | resetVwap symbol =>
    unfold handle resetVwap
    dsimp only
    split <;> rfl
  | setWeights momentumW rsiW volumeW vwapW smaW =>
    unfold handle setWeights
    dsimp only
    split <;> rfl

/-- **The weighted strategy** divides by zero exactly where one of three divisors is zero. -/
theorem guarded_noZeroDivisor (positionSize entryThreshold exitThreshold : ℚ)
    {events : List WeightedEvent} (hevents : ∀ event ∈ events, event.NonNegative) :
    Guarded handle NoZeroDivisor (new positionSize entryThreshold exitThreshold) events ↔
      Guarded handle DivisorsNonzero (new positionSize entryThreshold exitThreshold) events := by
  refine forall₃_congr fun earlier event hprefix => ?_
  cases event with
  | tick tick now =>
    have hmem : .tick tick now ∈ events :=
      hprefix.subset (List.mem_append_right _ (List.mem_singleton.2 rfl))
    have hvolume : 0 ≤ tick.volume := (hevents _ hmem).2
    have hlower :
        (run handle (new positionSize entryThreshold exitThreshold) earlier).rsiLower ≠ 0 := by
      have hkept := run_invariant (I := fun s : WeightedStrategy => s.rsiLower = 30)
        (fun s event h => (s.handle_rsiLower event).trans h)
        (rfl : (new positionSize entryThreshold exitThreshold).rsiLower = 30) earlier
      rw [hkept]
      norm_num
    have hwindow := run_window tick.symbol
      (rfl : (new positionSize entryThreshold exitThreshold).signalData tick.symbol = {}) earlier
    exact (Checked.generateSignal_eq now hlower hvolume
      (hwindow.recordTick tick).length.2).ne_none_iff
  | _ => exact Iff.rfl

end WeightedStrategy

/-! ## The enhanced intraday strategy -/

/-- What the enhanced strategy is told. The breaker is shared, so a tick comes with the breaker as it
stands when it is asked. -/
inductive IntradayEvent where
  | tick (tick : Tick) (breaker : CircuitBreaker) (now : TimePoint)
  | filled (order : Order)
  | rejected (order : Order)
  | updatePnl (breaker : CircuitBreaker) (pnlAmount : ℚ)
  | setCapital (capital : ℚ)

namespace EnhancedIntradayStrategy

def handle (s : EnhancedIntradayStrategy) : IntradayEvent → EnhancedIntradayStrategy
  | .tick tick breaker now => (s.generateSignal tick (breaker.canTrade now).1).2
  | .filled order => s.onOrderFilled order
  | .rejected order => s.onOrderRejected order
  | .updatePnl breaker pnlAmount => (s.updatePnl breaker pnlAmount).1
  | .setCapital capital => s.setCapital capital

/-- No division on a tick is by zero. -/
def NoZeroDivisor (s : EnhancedIntradayStrategy) : IntradayEvent → Prop
  | .tick tick breaker now => Checked.generateSignal s breaker tick now ≠ none
  | _ => True

instance (s : EnhancedIntradayStrategy) : DecidablePred s.NoZeroDivisor
  | .tick tick breaker now =>
    inferInstanceAs (Decidable (Checked.generateSignal s breaker tick now ≠ none))
  | .filled _ => .isTrue trivial
  | .rejected _ => .isTrue trivial
  | .updatePnl _ _ => .isTrue trivial
  | .setCapital _ => .isTrue trivial

/-- A tick finds the breaker out or its capital non-zero; where an order is sized, a loss among the
returns comes with a gain, and where a BUY is emitted, the size of the strategy is not zero. -/
def DivisorsNonzero (s : EnhancedIntradayStrategy) : IntradayEvent → Prop
  | .tick tick breaker now => Checked.Defined s breaker tick now
  | _ => True

instance (s : EnhancedIntradayStrategy) : DecidablePred s.DivisorsNonzero
  | .tick tick breaker now => inferInstanceAs (Decidable (Checked.Defined s breaker tick now))
  | .filled _ => .isTrue trivial
  | .rejected _ => .isTrue trivial
  | .updatePnl _ _ => .isTrue trivial
  | .setCapital _ => .isTrue trivial

theorem handle_rsiPeriod (s : EnhancedIntradayStrategy) (event : IntradayEvent) :
    (s.handle event).rsiPeriod = s.rsiPeriod := by
  cases event with
  | tick tick breaker now =>
    have hrecord : (s.recordTick tick).rsiPeriod = s.rsiPeriod := rfl
    unfold handle generateSignal
    dsimp only
    split
    · exact hrecord
    · split
      · exact hrecord
      · split
        · exact hrecord
        · split
          · split <;> exact hrecord
          · split
            · split <;> exact hrecord
            · exact hrecord
  | filled order =>
    unfold handle onOrderFilled
    dsimp only
    split <;> rfl
  | rejected order =>
    unfold handle onOrderRejected
    dsimp only
    split <;> rfl
  | _ => rfl

/-- **The enhanced strategy** divides by zero exactly where one of three divisors is zero. -/
theorem guarded_noZeroDivisor (size : ℚ) (events : List IntradayEvent) :
    Guarded handle NoZeroDivisor (new size) events ↔
      Guarded handle DivisorsNonzero (new size) events := by
  refine guarded_congr (I := fun s => 0 < s.rsiPeriod) (fun s event h _ => ?_)
    (fun s event h => ?_) (Nat.zero_lt_succ 13)
  · rw [handle_rsiPeriod]
    exact h
  · cases event with
    | tick tick breaker now => exact (Checked.generateSignal_eq h breaker tick now).ne_none_iff
    | _ => exact Iff.rfl

end EnhancedIntradayStrategy

/-! ## The three strategies -/

/-- **Divisions by zero.** Over every stream of ticks, fills and rejections with non-negative prices
and volumes, and every history of returns, the strategies divide by no zero if and only if the
divisors that nothing guards are not zero: for the momentum strategy the price of twenty ticks ago;
for the weighted strategy this, the turnover of a session with volume and the entry price of a
position; for the enhanced strategy the capital of a breaker that is asked, the odds of a sample
with a loss, and the size of the strategy where it buys. -/
theorem noZeroDivisor_iff (positionSize rsiUpper rsiLower entryThreshold exitThreshold : ℚ)
    (events : List StrategyEvent) (weightedEvents : List WeightedEvent)
    (intradayEvents : List IntradayEvent) (hevents : ∀ event ∈ events, event.NonNegative)
    (hweighted : ∀ event ∈ weightedEvents, event.NonNegative) :
    (Guarded MomentumStrategy.step MomentumStrategy.NoZeroDivisor
        (.new positionSize rsiUpper rsiLower) events ↔
      Guarded MomentumStrategy.step MomentumStrategy.OldPriceNonzero
        (.new positionSize rsiUpper rsiLower) events) ∧
    (Guarded WeightedStrategy.handle WeightedStrategy.NoZeroDivisor
        (.new positionSize entryThreshold exitThreshold) weightedEvents ↔
      Guarded WeightedStrategy.handle WeightedStrategy.DivisorsNonzero
        (.new positionSize entryThreshold exitThreshold) weightedEvents) ∧
    (Guarded EnhancedIntradayStrategy.handle EnhancedIntradayStrategy.NoZeroDivisor
        (.new positionSize) intradayEvents ↔
      Guarded EnhancedIntradayStrategy.handle EnhancedIntradayStrategy.DivisorsNonzero
        (.new positionSize) intradayEvents) :=
  ⟨MomentumStrategy.guarded_noZeroDivisor positionSize rsiUpper rsiLower hevents,
    WeightedStrategy.guarded_noZeroDivisor positionSize entryThreshold exitThreshold hweighted,
    EnhancedIntradayStrategy.guarded_noZeroDivisor positionSize intradayEvents⟩

/-- Ticks of one symbol at the given prices. -/
def printsAt (prices : List ℚ) : List Tick :=
  prices.map fun price => { symbol := "AAPL", price, volume := 10 }

/-- Fifty prints at one price, the thirty-first of them zero. -/
def badPrint : List Tick :=
  printsAt (List.replicate 30 100 ++ [0] ++ List.replicate 19 100)

/-- Twenty losses, then fifty ticks. -/
def losingHistory : List IntradayEvent :=
  List.replicate 20 (.updatePnl (.new 100000 0) (-100)) ++
    (printsAt (List.replicate 50 100)).map fun tick => .tick tick (.new 100000 0) 0

/-- Twenty returns, gains and losses, then fifty ticks on which a funded breaker is asked. -/
def mixedHistory : List IntradayEvent :=
  (List.range 20).map (fun i => .updatePnl (.new 100000 0) (if i % 4 = 0 then -100 else 200)) ++
    (printsAt (List.replicate 50 100)).map fun tick => .tick tick (.new 100000 0) 0

/-- Without a print of zero and with odds to a loss no strategy divides by zero. -/
theorem steadyPrints_noZeroDivisor :
    let ticks := printsAt (List.replicate 60 100)
    Guarded MomentumStrategy.step MomentumStrategy.NoZeroDivisor (.new 10 70 30)
        (ticks.map fun tick => .tick tick 0) ∧
      Guarded WeightedStrategy.handle WeightedStrategy.NoZeroDivisor (.new 10 (6 / 10) (3 / 10))
        (ticks.map fun tick => .tick tick 0) ∧
      Guarded EnhancedIntradayStrategy.handle EnhancedIntradayStrategy.NoZeroDivisor (.new 10)
        mixedHistory := by
  intro ticks
  have hiff := noZeroDivisor_iff 10 70 30 (6 / 10) (3 / 10)
    (ticks.map fun tick => .tick tick 0) (ticks.map fun tick => .tick tick 0) mixedHistory
    (by decide +kernel) (by decide +kernel)
  exact ⟨hiff.1.2 (by decide +kernel), hiff.2.1.2 (by decide +kernel),
    hiff.2.2.2 (by decide +kernel)⟩

/-- The bad print is divided by nineteen ticks later, and a sample of losses has no odds. -/
theorem badPrint_divides :
    ¬ Guarded MomentumStrategy.step MomentumStrategy.NoZeroDivisor (.new 10 70 30)
        (badPrint.map fun tick => .tick tick 0) ∧
      ¬ Guarded WeightedStrategy.handle WeightedStrategy.NoZeroDivisor (.new 10 (6 / 10) (3 / 10))
        (badPrint.map fun tick => .tick tick 0) ∧
      ¬ Guarded EnhancedIntradayStrategy.handle EnhancedIntradayStrategy.NoZeroDivisor (.new 100)
        losingHistory := by
  refine ⟨?_, ?_, ?_⟩ <;> decide +kernel

end TradingTerminal
