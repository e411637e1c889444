import TradingTerminal.Strategies.SymbolIndependence
import Mathlib.Tactic.Ring

/-!
# The unit of prices

Every quantity of the momentum strategy is either a price, and is multiplied by `k` when all prices
are, or a number without a unit, and stays. `Scaled` relates the two runs; the comparisons that
decide are between prices or between numbers, so the decisions of the runs agree
(`responses_scale`). The square root is taken of a number without a unit, whatever its rounding.
-/

namespace TradingTerminal

open Lib

/-! ## Records with prices -/

section Scale

variable (k : ℚ)

def Tick.scale (tick : Tick) : Tick :=
  { tick with price := k * tick.price, bid := k * tick.bid, ask := k * tick.ask }

def Order.scale (order : Order) : Order := { order with price := k * order.price }

def Signal.scale (signal : Signal) : Signal :=
  { signal with orders := signal.orders.map (Order.scale k) }

def StrategyEvent.scale (event : StrategyEvent) : StrategyEvent :=
  match event with
  | .tick t now => .tick (t.scale k) now
  | .filled order => .filled (order.scale k)
  | .rejected order => .rejected (order.scale k)
  | .resetVwap symbol => .resetVwap symbol

def Position.scale (pos : Position) : Position :=
  { pos with avgEntryPrice := k * pos.avgEntryPrice, currentPrice := k * pos.currentPrice }

def Strategy.scale (s : Strategy) : Strategy :=
  { pnl := k * s.pnl, positions := s.positions.map (Position.scale k) }

def PositionState.scale (p : PositionState) : PositionState :=
  { p with
    entryPrice := k * p.entryPrice
    trailingStop := k * p.trailingStop
    highestPrice := k * p.highestPrice }

def TradeOutcome.scale (out : TradeOutcome) : TradeOutcome :=
  { position := out.position.scale k, signal := out.signal.scale k, pnlChange := k * out.pnlChange }

end Scale

variable {k : ℚ}

/-! ## Indicators -/

theorem sum_scale (k : ℚ) (xs : List ℚ) : (xs.map (k * ·)).sum = k * xs.sum := by
  induction xs with
  | nil => simp
  | cons x xs ih => rw [List.map_cons, List.sum_cons, ih, List.sum_cons, mul_add]

theorem lastN_scale (k : ℚ) (n : Nat) (xs : List ℚ) :
    lastN n (xs.map (k * ·)) = (lastN n xs).map (k * ·) := by
  unfold lastN
  rw [List.length_map, List.map_drop]

theorem sma20Of_scale (k : ℚ) (prices : List ℚ) :
    sma20Of (prices.map (k * ·)) = k * sma20Of prices := by
  unfold sma20Of
  rw [lastN_scale, sum_scale, mul_div_assoc]

theorem meanOf_scale (k : ℚ) (prices : List ℚ) :
    meanOf (prices.map (k * ·)) = k * meanOf prices := by
  unfold meanOf
  rw [sum_scale, List.length_map, mul_div_assoc]

/-- Gains and losses are prices. -/
theorem gainsAndLosses_scale (hk : 0 < k) (prices : List ℚ) :
    gainsAndLosses (prices.map (k * ·)) =
      (k * (gainsAndLosses prices).1, k * (gainsAndLosses prices).2) := by
  have hchanges : List.zipWith (· - ·) (prices.map (k * ·)).tail (prices.map (k * ·)) =
      (List.zipWith (· - ·) prices.tail prices).map (k * ·) := by
    rw [← List.map_tail, List.zipWith_map, List.map_zipWith]
    simp only [mul_sub]
  unfold gainsAndLosses
  rw [hchanges, List.foldl_map]
  generalize List.zipWith (· - ·) prices.tail prices = changes
  -- the sums so far are scaled, and a change keeps its sign
  suffices h : ∀ sums : ℚ × ℚ, changes.foldl (fun (acc : ℚ × ℚ) change =>
      if k * change > 0 then (acc.1 + k * change, acc.2) else (acc.1, acc.2 - k * change))
        (k * sums.1, k * sums.2) =
      (k * (changes.foldl (fun (acc : ℚ × ℚ) change =>
        if change > 0 then (acc.1 + change, acc.2) else (acc.1, acc.2 - change)) sums).1,
       k * (changes.foldl (fun (acc : ℚ × ℚ) change =>
        if change > 0 then (acc.1 + change, acc.2) else (acc.1, acc.2 - change)) sums).2) by
    simpa using h (0, 0)
  induction changes with
  | nil => exact fun sums => rfl
  | cons change changes ih =>
    intro sums
    rw [List.foldl_cons, List.foldl_cons]
    by_cases hchange : change > 0
    · rw [if_pos (mul_pos hk hchange), if_pos hchange, ← ih]
      simp only [mul_add]
    · have hscaled : ¬ k * change > 0 := fun h => hchange ((pos_iff_pos_of_mul_pos h).1 hk)
      rw [if_neg hscaled, if_neg hchange, ← ih]
      simp only [mul_sub]

theorem rsiOf_scale (hk : 0 < k) (prices : List ℚ) : rsiOf (prices.map (k * ·)) = rsiOf prices := by
  unfold rsiOf
  rw [lastN_scale, gainsAndLosses_scale hk]
  dsimp only
  rw [mul_div_assoc, mul_div_assoc, mul_div_mul_left _ _ hk.ne']
  simp only [mul_eq_zero, hk.ne', false_or]

theorem momentumOf_scale (hk : 0 < k) (prices : List ℚ) :
    momentumOf (prices.map (k * ·)) = momentumOf prices := by
  have hold : ∀ i, (prices.map (k * ·)).getD i 0 = k * prices.getD i 0 := by
    intro i
    rw [List.getD_eq_getElem?_getD, List.getD_eq_getElem?_getD, List.getElem?_map]
    cases prices[i]? <;> simp
  have hnew : (prices.map (k * ·)).getLastD 0 = k * prices.getLastD 0 := by
    rw [List.getLastD_eq_getLast?, List.getLastD_eq_getLast?, List.getLast?_map]
    cases prices.getLast? <;> simp
  unfold momentumOf
  dsimp only
  rw [List.length_map, hold, hnew, ← mul_sub]
  exact mul_div_mul_left _ _ hk.ne'

/-! ## Positions -/

theorem Position.add_scale (k : ℚ) (pos : Position) (quantity price : ℚ) :
    (pos.scale k).add quantity (k * price) = (pos.add quantity price).scale k := by
  unfold add scale
  dsimp only
  by_cases h : pos.quantity + quantity ≠ 0
  · rw [if_pos h, if_pos h]
    congr 1
    ring
  · rw [if_neg h, if_neg h]

theorem addToFirst_scale (k : ℚ) (symbol : String) (quantity price : ℚ) (positions : List Position) :
    addToFirst symbol quantity (k * price) (positions.map (Position.scale k)) =
      (addToFirst symbol quantity price positions).map (List.map (Position.scale k)) := by
  induction positions with
  | nil => rfl
  | cons pos rest ih =>
    rw [List.map_cons, addToFirst, addToFirst]
    have hsymbol : (pos.scale k).symbol = pos.symbol := rfl
    rw [hsymbol]
    split
    · rw [Position.add_scale, Option.map_some, List.map_cons]
    · rw [ih]
      cases addToFirst symbol quantity price rest <;> simp

theorem Strategy.updatePosition_scale (k : ℚ) (s : Strategy) (symbol : String) (quantity price : ℚ) :
    (s.scale k).updatePosition symbol quantity (k * price) =
      (s.updatePosition symbol quantity price).scale k := by
  have hpositions : (s.scale k).positions = s.positions.map (Position.scale k) := rfl
  unfold updatePosition
  rw [hpositions, addToFirst_scale]
  cases addToFirst symbol quantity price s.positions with
  | some positions => rfl
  | none =>
    dsimp only [Option.map_none]
    split
    · simp [scale, Position.scale]
    · have hfilter : (s.positions.map (Position.scale k)).filter (·.symbol ≠ symbol) =
          (s.positions.filter (·.symbol ≠ symbol)).map (Position.scale k) := by
        rw [List.filter_map]
        rfl
      rw [hfilter]
      rfl

theorem Strategy.bookFill_scale (k : ℚ) (s : Strategy) (order : Order) :
    (s.scale k).bookFill (order.scale k) = (s.bookFill order).scale k := by
  have hcommission : ({ s.scale k with
      pnl := (s.scale k).pnl - (order.scale k).price * (order.scale k).quantity * (5 / 10000) } :
        Strategy) =
      Strategy.scale k { s with pnl := s.pnl - order.price * order.quantity * (5 / 10000) } := by
    simp only [scale, Order.scale]
    congr 1
    ring
  unfold bookFill
  dsimp only
  rw [hcommission]
  exact updatePosition_scale k _ order.symbol order.signed order.price

namespace PositionState

theorem priceChange_scale (hk : 0 < k) (p : PositionState) (price : ℚ) :
    (p.scale k).priceChange (k * price) = p.priceChange price := by
  unfold priceChange scale
  dsimp only
  rw [← mul_sub, mul_div_mul_left _ _ hk.ne']

theorem raiseStop_scale (hk : 0 < k) (p : PositionState) (pct price : ℚ) :
    (p.scale k).raiseStop pct (k * price) = (p.raiseStop pct price).scale k := by
  have hhighest : (p.scale k).highestPrice = k * p.highestPrice := rfl
  unfold raiseStop
  rw [hhighest]
  by_cases h : price > p.highestPrice
  · rw [if_pos h, if_pos ((mul_lt_mul_iff_right₀ hk).2 h)]
    simp only [scale, mul_assoc]
  · rw [if_neg h, if_neg fun h' => h ((mul_lt_mul_iff_right₀ hk).1 h')]

theorem enter_scale (k : ℚ) (p : PositionState) (pct price : ℚ) (seconds : UInt64) :
    (p.scale k).enter pct (k * price) seconds = (p.enter pct price seconds).scale k := by
  simp only [enter, scale, mul_assoc]

theorem filled_scale (k : ℚ) (p : PositionState) (isBuy : Bool) :
    (p.scale k).filled isBuy = (p.filled isBuy).scale k := by
  cases isBuy <;> rfl

theorem rejected_scale (k : ℚ) (p : PositionState) (isBuy : Bool) :
    (p.scale k).rejected isBuy = (p.rejected isBuy).scale k := by
  cases isBuy <;> rfl

end PositionState

/-- The exit and entry logic, with an exit test that does not depend on the unit. -/
theorem trade_scale (hk : 0 < k) (size pct : ℚ) (tick : Tick) (now : UInt64)
    {exitReason exitReason' : PositionState → Option String}
    (hexit : ∀ p, exitReason' (p.scale k) = exitReason p) (confidence : ℚ)
    (entry : Option (String × ℚ)) (p : PositionState) :
    trade size pct (tick.scale k) now exitReason' confidence entry (p.scale k) =
      (trade size pct tick now exitReason confidence entry p).scale k := by
  have hraise := p.raiseStop_scale hk pct tick.price
  unfold trade
  cases hin : p.inPosition with
  | true =>
    have hin' : (p.scale k).inPosition = true := hin
    simp only [hin', if_true, Tick.scale, hraise, hexit]
    generalize p.raiseStop pct tick.price = q
    cases exitReason q with
    | none => simp [TradeOutcome.scale, Signal.scale]
    | some reason =>
      cases hpend : q.pendingExit with
      | true =>
        have hpend' : (q.scale k).pendingExit = true := hpend
        simp [hpend', TradeOutcome.scale, Signal.scale]
      | false =>
        have hpend' : (q.scale k).pendingExit = false := hpend
        simp only [hpend', Bool.not_false, if_true, TradeOutcome.scale, Signal.scale,
          List.map_cons, List.map_nil]
        simp only [PositionState.scale, marketOrder, Order.scale]
        congr 1
        ring
  | false =>
    have hin' : (p.scale k).inPosition = false := hin
    have hpend : (p.scale k).pendingExit = p.pendingExit := rfl
    simp only [hin', hpend, Bool.false_eq_true, if_false, Tick.scale, PositionState.enter_scale]
    cases p.pendingExit with
    | true => simp [TradeOutcome.scale, Signal.scale]
    | false =>
      cases entry with
      | none => simp [TradeOutcome.scale, Signal.scale]
      | some e => simp [TradeOutcome.scale, Signal.scale, marketOrder, Order.scale]

/-! ## The momentum strategy -/

namespace MomentumStrategy

namespace SymbolData

def scale (k : ℚ) (data : SymbolData) : SymbolData :=
  { data with
    toPositionState := data.toPositionState.scale k
    prices := data.prices.map (k * ·)
    prevPrice := k * data.prevPrice
    sma20 := k * data.sma20
    sma50 := k * data.sma50 }

theorem scale_default (k : ℚ) : scale k {} = {} := by
  simp [scale, PositionState.scale]

theorem recordTick_scale (hk : 0 < k) (data : SymbolData) (tick : Tick) :
    (data.scale k).recordTick (tick.scale k) = (data.recordTick tick).scale k := by
  have hreturn : (k * tick.price - k * data.prevPrice) / (k * data.prevPrice) =
      (tick.price - data.prevPrice) / data.prevPrice := by
    rw [← mul_sub, mul_div_mul_left _ _ hk.ne']
  have hprev : k * data.prevPrice > 0 ↔ data.prevPrice > 0 := by
    simp [hk]
  unfold recordTick scale
  simp only [Tick.scale, hreturn, hprev, List.map_drop, List.map_append, List.map_cons,
    List.map_nil, List.length_append, List.length_map, List.length_singleton]

theorem calculate_scale (hk : 0 < k) (data : SymbolData) :
    (data.scale k).calculate = data.calculate.scale k := by
  have hsma : (data.scale k).calculateSma = data.calculateSma.scale k := by
    simp only [calculateSma, scale, sma20Of_scale, meanOf_scale]
  have hrsi (d : SymbolData) : (d.scale k).calculateRsi = d.calculateRsi.scale k := by
    unfold calculateRsi
    simp only [scale, List.length_map, rsiOf_scale hk]
    split <;> rfl
  have hmomentum (d : SymbolData) : (d.scale k).calculateMomentum = d.calculateMomentum.scale k := by
    unfold calculateMomentum
    simp only [scale, List.length_map, momentumOf_scale hk]
    split <;> rfl
  have hvolatility (d : SymbolData) :
      (d.scale k).calculateVolatility = d.calculateVolatility.scale k := by
    unfold calculateVolatility
    have hreturns : (d.scale k).returns = d.returns := rfl
    rw [hreturns]
    split <;> rfl
  rw [calculate, hsma, hrsi, hmomentum, hvolatility, calculate]

end SymbolData

/-- The exit test compares prices with prices and numbers with numbers. -/
theorem exitReason_scale (hk : 0 < k) (s : MomentumStrategy) (data : SymbolData) (tick : Tick)
    (now : UInt64) (p : PositionState) :
    s.exitReason (data.scale k) (tick.scale k) now (p.scale k) = s.exitReason data tick now p := by
  have hstop : k * tick.price ≤ k * p.trailingStop ↔ tick.price ≤ p.trailingStop :=
    mul_le_mul_iff_right₀ hk
  have hchange : (p.scale k).priceChange (tick.scale k).price = p.priceChange tick.price :=
    p.priceChange_scale hk tick.price
  have hhold : ∀ seconds, (p.scale k).holdTime seconds = p.holdTime seconds := fun _ => rfl
  have htrailing :
      (tick.scale k).price ≤ (p.scale k).trailingStop ↔ tick.price ≤ p.trailingStop := hstop
  have hrsi : (data.scale k).rsi = data.rsi := rfl
  unfold exitReason
  simp only [hchange, hhold, htrailing, hrsi]

theorem entry_scale (hk : 0 < k) (s : MomentumStrategy) (data : SymbolData) (tick : Tick) :
    s.entry (data.scale k) (tick.scale k) = s.entry data tick := by
  have hprice : (tick.scale k).price > (data.scale k).sma20 ↔ tick.price > data.sma20 :=
    mul_lt_mul_iff_right₀ hk
  have hcross : (data.scale k).sma20 > (data.scale k).sma50 ↔ data.sma20 > data.sma50 :=
    mul_lt_mul_iff_right₀ hk
  have hrsi : (data.scale k).rsi = data.rsi := rfl
  have hmomentum : (data.scale k).momentum = data.momentum := rfl
  have hvolatility : (data.scale k).volatility = data.volatility := rfl
  unfold entry
  simp only [hprice, hcross, hrsi, hmomentum, hvolatility]

/-- Two strategies with the same parameters, the second with all its prices `k` times those of the
first. -/
structure Scaled (k : ℚ) (s s' : MomentumStrategy) : Prop where
  rest : s' = { s with toStrategy := s.toStrategy.scale k, data := s'.data }
  data : ∀ symbol, s'.symbolData symbol = (s.symbolData symbol).scale k

variable {s s' : MomentumStrategy}

theorem Scaled.strategy (h : Scaled k s s') : s'.toStrategy = s.toStrategy.scale k := by
  rw [h.rest]

/-- Entries that agree up to the unit may take the place of a symbol's entry. -/
theorem Scaled.insert (h : Scaled k s s') (symbol : String) {data data' : SymbolData}
    {strategy strategy' : Strategy} (hdata : data' = data.scale k)
    (hstrategy : strategy' = strategy.scale k) :
    Scaled k { s with toStrategy := strategy, data := s.data.insert symbol data }
      { s' with toStrategy := strategy', data := s'.data.insert symbol data' } := by
  constructor
  · rw [h.rest, hstrategy]
  · intro symbol'
    have hold := h.data symbol'
    unfold symbolData at hold ⊢
    rw [UMap.getD_insert, UMap.getD_insert]
    split
    · exact hdata
    · exact hold

/-- A change of the position fields that is the same in every unit. -/
theorem Scaled.position (h : Scaled k s s') (symbol : String)
    (change : PositionState → PositionState)
    (hchange : ∀ p, change (p.scale k) = (change p).scale k) :
    ({ s'.symbolData symbol with
        toPositionState := change (s'.symbolData symbol).toPositionState } : SymbolData) =
      ({ s.symbolData symbol with
        toPositionState := change (s.symbolData symbol).toPositionState } : SymbolData).scale k := by
  have hposition : ((s.symbolData symbol).scale k).toPositionState =
      (s.symbolData symbol).toPositionState.scale k := rfl
  rw [h.data symbol, hposition, hchange]
  rfl

theorem Scaled.generateSignal (hk : 0 < k) (h : Scaled k s s') (tick : Tick) (now : UInt64) :
    (s'.generateSignal (tick.scale k) now).1 = (s.generateSignal tick now).1.scale k ∧
      Scaled k (s.generateSignal tick now).2 (s'.generateSignal (tick.scale k) now).2 := by
  have hrecord : (s'.symbolData (tick.scale k).symbol).recordTick (tick.scale k) =
      ((s.symbolData tick.symbol).recordTick tick).scale k := by
    rw [← SymbolData.recordTick_scale hk, ← h.data]
    rfl
  unfold MomentumStrategy.generateSignal
  rw [hrecord]
  generalize (s.symbolData tick.symbol).recordTick tick = data
  have hlength : (data.scale k).prices.length = data.prices.length := by simp [SymbolData.scale]
  have hsize : s'.positionSize = s.positionSize := by rw [h.rest]
  have hpct : s'.trailingStopPct = s.trailingStopPct := by rw [h.rest]
  have hexit : s'.exitReason = s.exitReason := by rw [h.rest]; rfl
  have hentry : s'.entry = s.entry := by rw [h.rest]; rfl
  simp only [hlength]
  split
  · exact ⟨rfl, h.insert tick.symbol rfl h.strategy⟩
  · rw [SymbolData.calculate_scale hk, hsize, hpct, hexit, hentry, entry_scale hk]
    have htrade := trade_scale hk s.positionSize s.trailingStopPct tick now
      (exitReason_scale hk s data.calculate tick now) (9 / 10) (s.entry data.calculate tick)
      data.calculate.toPositionState
    have hposition : (data.calculate.scale k).toPositionState =
        data.calculate.toPositionState.scale k := rfl
    rw [hposition, htrade]
    generalize trade s.positionSize s.trailingStopPct tick now (s.exitReason data.calculate tick now)
      (9 / 10) (s.entry data.calculate tick) data.calculate.toPositionState = out
    have hpnl : ({ s'.toStrategy with pnl := s'.pnl + k * out.pnlChange } : Strategy) =
        ({ s.toStrategy with pnl := s.pnl + out.pnlChange } : Strategy).scale k := by
      rw [h.strategy]
      simp only [Strategy.scale, mul_add]
    have hposition : ({ data.calculate.scale k with toPositionState := out.position.scale k } :
        SymbolData) = ({ data.calculate with toPositionState := out.position }).scale k := rfl
    have hnext := h.insert tick.symbol hposition hpnl
    rw [hsize, hpct] at hnext
    exact ⟨rfl, hnext⟩

theorem Scaled.onOrderFilled (h : Scaled k s s') (order : Order) :
    Scaled k (s.onOrderFilled order) (s'.onOrderFilled (order.scale k)) := by
  have hbooked : s'.toStrategy.bookFill (order.scale k) = (s.toStrategy.bookFill order).scale k := by
    rw [h.strategy, Strategy.bookFill_scale]
  have hbuy : (order.scale k).isBuy = order.isBuy := rfl
  unfold MomentumStrategy.onOrderFilled
  rw [hbuy, hbooked]
  cases hb : order.isBuy with
  | true =>
    refine ⟨?_, h.data⟩
    rw [h.rest]
    rfl
  | false =>
    have hfilled := h.position order.symbol (·.filled false) fun p => p.filled_scale k false
    exact h.insert order.symbol hfilled rfl

theorem Scaled.onOrderRejected (h : Scaled k s s') (order : Order) :
    Scaled k (s.onOrderRejected order) (s'.onOrderRejected (order.scale k)) := by
  have hrejected := h.position order.symbol (·.rejected order.isBuy) fun p =>
    p.rejected_scale k order.isBuy
  exact h.insert order.symbol hrejected h.strategy

/-! ## Runs -/

/-- An event: the signal a tick returns, and the strategy after it. The reset of the session is for
another strategy. -/
def handle (s : MomentumStrategy) : StrategyEvent → Option Signal × MomentumStrategy
  | .tick tick now => let (signal, s) := s.generateSignal tick now; (some signal, s)
  | .filled order => (none, s.onOrderFilled order)
  | .rejected order => (none, s.onOrderRejected order)
  | .resetVwap _ => (none, s)

/-- The answers to a sequence of events, one by one, and the strategy after them. -/
def responses (s : MomentumStrategy) : List StrategyEvent → List (Option Signal) × MomentumStrategy
  | [] => ([], s)
  | event :: events =>
    let (signal, s) := s.handle event
    let (signals, s) := responses s events
    (signal :: signals, s)

theorem responses_cons (s : MomentumStrategy) (event : StrategyEvent) (events : List StrategyEvent) :
    s.responses (event :: events) =
      ((s.handle event).1 :: ((s.handle event).2.responses events).1,
        ((s.handle event).2.responses events).2) := rfl

theorem Scaled.handle (hk : 0 < k) (h : Scaled k s s') (event : StrategyEvent) :
    (s'.handle (event.scale k)).1 = (s.handle event).1.map (Signal.scale k) ∧
      Scaled k (s.handle event).2 (s'.handle (event.scale k)).2 := by
  cases event with
  | tick tick now =>
    obtain ⟨hsignal, hnext⟩ := h.generateSignal hk tick now
    exact ⟨congrArg some hsignal, hnext⟩
  | filled order => exact ⟨rfl, h.onOrderFilled order⟩
  | rejected order => exact ⟨rfl, h.onOrderRejected order⟩
  | resetVwap symbol => exact ⟨rfl, h⟩

theorem Scaled.responses (hk : 0 < k) (h : Scaled k s s') (events : List StrategyEvent) :
    (s'.responses (events.map (StrategyEvent.scale k))).1 =
        (s.responses events).1.map (Option.map (Signal.scale k)) ∧
      Scaled k (s.responses events).2 (s'.responses (events.map (StrategyEvent.scale k))).2 := by
  induction events generalizing s s' with
  | nil => exact ⟨rfl, h⟩
  | cons event events ih =>
    obtain ⟨hsignal, hnext⟩ := h.handle hk event
    obtain ⟨hsignals, hlast⟩ := ih hnext
    rw [List.map_cons, responses_cons, responses_cons, List.map_cons, hsignal, hsignals]
    exact ⟨rfl, hlast⟩

theorem scaled_new (k positionSize rsiUpper rsiLower : ℚ) :
    Scaled k (.new positionSize rsiUpper rsiLower) (.new positionSize rsiUpper rsiLower) := by
  constructor
  · simp [new, Strategy.scale]
  · intro symbol
    simp only [symbolData, new, UMap.getD_empty, SymbolData.scale_default]

/-- **The unit of prices.** With every price of a stream of ticks and confirmed orders multiplied by
`k`, the strategy answers event by event with the same signals but for the order prices, which are
multiplied by `k`, and so is its P&L. -/
theorem responses_scale (hk : 0 < k) (positionSize rsiUpper rsiLower : ℚ)
    (events : List StrategyEvent) :
    let run := MomentumStrategy.responses (.new positionSize rsiUpper rsiLower)
    (run (events.map (StrategyEvent.scale k))).1 =
        (run events).1.map (Option.map (Signal.scale k)) ∧
      (run (events.map (StrategyEvent.scale k))).2.pnl = k * (run events).2.pnl := by
  obtain ⟨hsignals, hlast⟩ := (scaled_new k positionSize rsiUpper rsiLower).responses hk events
  refine ⟨hsignals, ?_⟩
  rw [hlast.rest]
  rfl

/-- Forty-nine prints at 100 and a jump to 105 that is bought, with the confirmation. -/
def boughtJump : List StrategyEvent :=
  let print (price volume : ℚ) : StrategyEvent :=
    .tick { symbol := "AAPL", price, volume, bid := price, ask := price } 0
  List.replicate 49 (print 100 1) ++
    [print 105 100, .filled { symbol := "AAPL", price := 105, quantity := 10 }]

/-- The jump in dollars and in cents: one purchase of ten shares each. -/
theorem boughtJump_cents :
    let run := MomentumStrategy.responses (.new 10 70 30)
    let bought (events : List StrategyEvent) : List (ℚ × ℚ) :=
      ((run events).1.reduceOption.flatMap Signal.orders).map fun order =>
        (order.price, order.quantity)
    (run (boughtJump.map (StrategyEvent.scale 100))).1 =
        (run boughtJump).1.map (Option.map (Signal.scale 100)) ∧
      (run (boughtJump.map (StrategyEvent.scale 100))).2.pnl = 100 * (run boughtJump).2.pnl ∧
      bought boughtJump = [(105, 10)] ∧
      bought (boughtJump.map (StrategyEvent.scale 100)) = [(10500, 10)] := by
  intro run bought
  obtain ⟨hsignals, hpnl⟩ := responses_scale (k := 100) (by norm_num) 10 70 30 boughtJump
  exact ⟨hsignals, hpnl, by decide +kernel, by decide +kernel⟩

end MomentumStrategy

end TradingTerminal
