import TradingTerminal.Strategies.Strategy
import TradingTerminal.Strategies.Indicators
import TradingTerminal.Strategies.OneSlot
import TradingTerminal.Live.CircuitBreaker

/-!
# The enhanced intraday strategy

`strategies/enhanced_intraday.hpp` with its two components, `strategies/regime_detector.hpp` and
`risk/kelly_sizer.hpp`: one price history, one pair of flags and one entry price for all the symbols
it is fed. The size of an order is computed anew on every tick, for an exit as for an entry.
-/

namespace TradingTerminal

/-! ## The regime detector -/

structure RegimeDetector where
  returns : List ℚ := []
  volumes : List ℚ := []
  highVolThreshold : ℚ := 15 / 1000
  lowVolThreshold : ℚ := 5 / 1000
  lastPrice : ℚ := 0
  hasLastPrice : Bool := false

inductive Regime where
  | lowVolBull
  | normalBull
  | highVolBear
  | crash
  deriving DecidableEq, Repr

namespace RegimeDetector

def addData (r : RegimeDetector) (price volume : ℚ) : RegimeDetector :=
  let r :=
    if r.hasLastPrice ∧ r.lastPrice > 0 then
      { r with
        returns := pushWindow 100 r.returns ((price - r.lastPrice) / r.lastPrice)
        volumes := pushWindow 100 r.volumes volume }
    else r
  { r with lastPrice := price, hasLastPrice := true }

def calculateVolatility (r : RegimeDetector) : ℚ :=
  if r.returns.length < 20 then 1 / 100 else sqrt (varianceOf r.returns)

/-- `calculate_volume_trend`: the mean of the newer half over the mean of the older half. -/
def calculateVolumeTrend (r : RegimeDetector) : ℚ :=
  if r.volumes.length < 20 then 1
  else
    let half := r.volumes.length / 2
    let oldAvg := (r.volumes.take half).sum / half
    let newAvg := (r.volumes.drop half).sum / (r.volumes.length - half : Nat)
    if oldAvg > 0 then newAvg / oldAvg else 1

def detect (r : RegimeDetector) : Regime :=
  let vol := r.calculateVolatility
  let volumeRatio := r.calculateVolumeTrend
  if vol > r.highVolThreshold * 2 then .crash
  else if vol > r.highVolThreshold then .highVolBear
  else if vol < r.lowVolThreshold ∧ volumeRatio > 12 / 10 then .lowVolBull
  else .normalBull

def getPositionMultiplier (r : RegimeDetector) : ℚ :=
  match r.detect with
  | .lowVolBull => 15 / 10
  | .normalBull => 1
  | .highVolBear => 5 / 10
  | .crash => 0

end RegimeDetector

/-! ## The Kelly sizer -/

structure KellyPositionSizer where
  returns : List ℚ := []
  maxHistory : Nat := 100

namespace KellyPositionSizer

def addReturn (k : KellyPositionSizer) (pnlPercent : ℚ) : KellyPositionSizer :=
  { k with returns := pushWindow k.maxHistory k.returns pnlPercent }

/-- `calculate_kelly`: half the Kelly fraction of the recorded returns, between 1% and 15%. -/
def calculateKelly (k : KellyPositionSizer) : ℚ :=
  if k.returns.length < 20 then 2 / 100
  else
    let winning := k.returns.filter (· > 0)
    let losing := k.returns.filter (¬ · > 0)
    let winRate : ℚ := winning.length / k.returns.length
    let avgWin := if winning.length > 0 then winning.sum / winning.length else 0
    let avgLoss := if losing.length > 0 then -losing.sum / losing.length else 0
    if avgLoss = 0 then 25 / 100
    else
      let b := avgWin / avgLoss
      let kelly := (winRate * b - (1 - winRate)) / b
      max (1 / 100) (min (15 / 100) (kelly / 2))

def calculatePositionSize (k : KellyPositionSizer) (capital entryPrice : ℚ)
    (stopLossPct : ℚ := 2 / 100) : ℚ :=
  let riskAmount := capital * k.calculateKelly
  let stopDistance := entryPrice * stopLossPct
  if stopDistance ≤ 0 then 0
  else min (riskAmount / stopDistance) (capital * (25 / 100) / entryPrice)

def reset (k : KellyPositionSizer) : KellyPositionSizer := { k with returns := [] }

end KellyPositionSizer

/-! ## The strategy -/

/-- `EnhancedIntradayStrategy`. The circuit breaker is injected and shared with the order manager:
its answers and its state are arguments of the functions that use it. -/
structure EnhancedIntradayStrategy extends Strategy where
  regime : RegimeDetector := {}
  kelly : KellyPositionSizer := {}
  priceHistory : List ℚ := []
  positionSize : ℚ := 100
  rsiPeriod : Nat := 14
  emaFastPeriod : Nat := 9
  emaSlowPeriod : Nat := 21
  inPosition : Bool := false
  pendingExit : Bool := false
  entryPrice : ℚ := 0
  capital : ℚ := 100000

/-- `calculate_ema`, from the first price on. -/
def calculateEma (prices : List ℚ) (period : Nat) : ℚ :=
  if prices.length < period then prices.getLastD 0
  else
    let multiplier : ℚ := 2 / (period + 1)
    prices.tail.foldl (fun ema price => (price - ema) * multiplier + ema) (prices.headD 0)

namespace EnhancedIntradayStrategy

def new (size : ℚ) : EnhancedIntradayStrategy := { positionSize := size }

def calculateRsi (s : EnhancedIntradayStrategy) : ℚ :=
  if s.priceHistory.length < s.rsiPeriod + 1 then 50
  else
    let (gain, loss) := gainsAndLosses (lastN (s.rsiPeriod + 1) s.priceHistory)
    let gain := gain / s.rsiPeriod
    let loss := loss / s.rsiPeriod
    if loss = 0 then 100 else 100 - 100 / (1 + gain / loss)

/-- The update of the price history and the regime at the head of `generate_signal`. -/
def recordTick (s : EnhancedIntradayStrategy) (tick : Tick) : EnhancedIntradayStrategy :=
  { s with
    priceHistory := pushWindow 100 s.priceHistory tick.price
    regime := s.regime.addData tick.price tick.volume }

/-- `final_size`, the quantity of an order at a price. -/
def finalSize (s : EnhancedIntradayStrategy) (price : ℚ) : ℚ :=
  min (s.positionSize * s.regime.getPositionMultiplier) (s.kelly.calculatePositionSize s.capital price)

def shouldExit (s : EnhancedIntradayStrategy) (price : ℚ) : Bool :=
  let priceChange := if s.entryPrice > 0 then (price - s.entryPrice) / s.entryPrice else 0
  s.calculateRsi > 70 || priceChange ≤ -2 / 100 || priceChange ≥ 5 / 100

/-- The entry test of `generate_signal`: the reason of the BUY. -/
def entryReason (s : EnhancedIntradayStrategy) (price : ℚ) : Option String :=
  let emaFast := calculateEma s.priceHistory s.emaFastPeriod
  let emaSlow := calculateEma s.priceHistory s.emaSlowPeriod
  let rsi := s.calculateRsi
  if emaFast > emaSlow ∧ rsi < 70 ∧ rsi > 30 then some "trend_up"
  else if rsi < 30 ∧ price < emaSlow * (99 / 100) then some "rsi_oversold"
  else none

/-- `generate_signal`, with the answer of `breaker.can_trade()`. -/
def generateSignal (s : EnhancedIntradayStrategy) (tick : Tick) (canTrade : Bool) :
    Signal × EnhancedIntradayStrategy :=
  let signal : Signal := { symbol := tick.symbol }
  let s := s.recordTick tick
  if !canTrade then (signal, s)
  else if s.priceHistory.length < 50 then (signal, s)
  else if s.regime.getPositionMultiplier = 0 then (signal, s)
  else
    let size := s.finalSize tick.price
    if s.inPosition ∧ !s.pendingExit then
      if s.shouldExit tick.price then
        ({ signal with
            orders := [marketOrder tick.symbol tick.bid size false]
            valid := true, reason := "exit" },
          { s with pendingExit := true, pnl := s.pnl + (tick.price - s.entryPrice) * size })
      else (signal, s)
    else if !s.inPosition ∧ !s.pendingExit then
      match s.entryReason tick.price with
      | some reason =>
        ({ signal with
            orders := [marketOrder tick.symbol tick.ask size true]
            valid := true, reason, confidence := s.calculateRsi / 100 },
          { s with inPosition := true, entryPrice := tick.price })
      | none => (signal, s)
    else (signal, s)

def onOrderFilled (s : EnhancedIntradayStrategy) (order : Order) : EnhancedIntradayStrategy :=
  let s := { s with toStrategy := s.toStrategy.bookFill order }
  if !order.isBuy then { s with inPosition := false, pendingExit := false, entryPrice := 0 } else s

def onOrderRejected (s : EnhancedIntradayStrategy) (order : Order) : EnhancedIntradayStrategy :=
  if order.isBuy then { s with inPosition := false, entryPrice := 0 }
  else { s with pendingExit := false }

/-- `update_pnl`, which also records the trade with the breaker. -/
def updatePnl (s : EnhancedIntradayStrategy) (breaker : CircuitBreaker) (pnlAmount : ℚ) :
    EnhancedIntradayStrategy × CircuitBreaker :=
  let returnPct := if s.capital > 0 then pnlAmount / s.capital else 0
  ({ s with pnl := s.pnl + pnlAmount, kelly := s.kelly.addReturn returnPct },
    breaker.recordTrade pnlAmount)

def setCapital (s : EnhancedIntradayStrategy) (capital : ℚ) : EnhancedIntradayStrategy :=
  { s with capital }

/-! ## The slot -/

/-- Whether an exit fires on a tick: trading goes on, enough prices are known, the regime is no
crash, a position is held with no exit outstanding, and the exit test holds. -/
def exitDue (s : EnhancedIntradayStrategy) (tick : Tick) (canTrade : Bool) : Bool :=
  let s := s.recordTick tick
  canTrade && 50 ≤ s.priceHistory.length && s.regime.getPositionMultiplier ≠ 0 && s.inPosition &&
    !s.pendingExit && s.shouldExit tick.price

/-- The quantity of an order emitted on a tick. -/
def orderSize (s : EnhancedIntradayStrategy) (tick : Tick) : ℚ :=
  (s.recordTick tick).finalSize tick.price

/-- The strategy on ticks with the breaker's answer. -/
def trader : Trader EnhancedIntradayStrategy (Tick × Bool) :=
  { generateSignal := fun s x => s.generateSignal x.1 x.2, onOrderFilled }

/-- A tick emits nothing, or the exit that is due, or an entry. -/
theorem generateSignal_cases (s : EnhancedIntradayStrategy) (tick : Tick) (canTrade : Bool) :
    (s.exitDue tick canTrade = false ∧ (s.generateSignal tick canTrade).1.orders = [] ∧
      (s.generateSignal tick canTrade).2 = s.recordTick tick) ∨
    (s.exitDue tick canTrade = true ∧ s.inPosition = true ∧
      (s.generateSignal tick canTrade).1.orders =
        [marketOrder tick.symbol tick.bid (s.orderSize tick) false]) ∨
    (s.exitDue tick canTrade = false ∧ s.inPosition = false ∧
      (s.generateSignal tick canTrade).1.orders =
        [marketOrder tick.symbol tick.ask (s.orderSize tick) true] ∧
      (s.generateSignal tick canTrade).2 =
        { s.recordTick tick with inPosition := true, entryPrice := tick.price }) := by
  have hin : (s.recordTick tick).inPosition = s.inPosition := rfl
  unfold generateSignal exitDue
  dsimp only
  split
  · next hno =>
    have hstop : canTrade = false := by simpa using hno
    exact Or.inl ⟨by simp [hstop], rfl, rfl⟩
  · next hyes =>
    split
    · next hshort => exact Or.inl ⟨by simp [Nat.not_le.2 hshort], rfl, rfl⟩
    · next hlong =>
      split
      · next hcrash => exact Or.inl ⟨by simp [hcrash], rfl, rfl⟩
      · next hcalm =>
        split
        · next hheld =>
          split
          · next hexit =>
            refine Or.inr (Or.inl ⟨?_, hin ▸ hheld.1, rfl⟩)
            have htrade : canTrade = true := by simpa using hyes
            have hpending := hheld.2
            simp [htrade, Nat.not_lt.1 hlong, hcalm, hheld.1, hexit, hpending]
          · next hexit => exact Or.inl ⟨by simp [hexit], rfl, rfl⟩
        · next hheld =>
          split
          · next hflat =>
            have hempty : (s.recordTick tick).inPosition = false := by simpa using hflat.1
            split
            · exact Or.inr (Or.inr ⟨by simp [hempty], hin ▸ hempty, rfl, rfl⟩)
            · exact Or.inl ⟨by simp [hempty], rfl, rfl⟩
          · next hflat =>
            refine Or.inl ⟨?_, rfl, rfl⟩
            cases hp : (s.recordTick tick).pendingExit with
            | true => simp
            | false =>
              have hempty : (s.recordTick tick).inPosition = false := by
                simpa [hp] using hheld
              simp [hempty]

/-- What an answered tick does to the flags. -/
theorem answered (d : Desk EnhancedIntradayStrategy) (x : Tick × Bool)
    (hidle : d.strategy.pendingExit = false) :
    (d.step trader x).strategy.pendingExit = false ∧
      Answered x.1.symbol (d.strategy.exitDue x.1 x.2) (d.strategy.orderSize x.1)
        d.strategy.inPosition (d.step trader x).strategy.inPosition
        (d.strategy.generateSignal x.1 x.2).1.orders := by
  have hstrategy : (d.step trader x).strategy = (d.strategy.generateSignal x.1 x.2).1.orders.foldl
      onOrderFilled (d.strategy.generateSignal x.1 x.2).2 := rfl
  have hpending : (d.strategy.recordTick x.1).pendingExit = false := hidle
  rcases d.strategy.generateSignal_cases x.1 x.2 with
    ⟨hundue, horders, hs⟩ | ⟨hdue, hfull, horders⟩ | ⟨hundue, hempty, horders, hs⟩
  · rw [hstrategy, horders, List.foldl_nil, hs]
    exact ⟨hpending, .quiet hundue rfl⟩
  · rw [hstrategy, horders, List.foldl_cons, List.foldl_nil]
    exact ⟨rfl, .exit hdue hfull rfl rfl rfl rfl⟩
  · rw [hstrategy, horders, List.foldl_cons, List.foldl_nil, hs]
    exact ⟨hpending, .entry hundue hempty rfl rfl rfl rfl⟩

/-- One flag and one price history: the strategy has one slot. -/
def oneSlot : OneSlot trader where
  symbol x := x.1.symbol
  held := inPosition
  idle s := s.pendingExit = false
  exitDue s x := s.exitDue x.1 x.2
  size s x := s.orderSize x.1
  idle_step d x h := (answered d x h).1
  answered d x h := (answered d x h).2

end EnhancedIntradayStrategy

end TradingTerminal
