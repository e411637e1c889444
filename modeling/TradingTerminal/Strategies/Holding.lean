import TradingTerminal.Strategies.LiveTicks
import TradingTerminal.Lib.Run
import Mathlib.Order.Bounds.Basic
import Mathlib.Tactic.Linarith

/-!
# Positions while they are held

A live strategy on arbitrary events, next to a record of the ticks that each symbol got since the
latest BUY was emitted for it. While a position is held its fields are read off this record: the
highest price, the stop below it, the time of the entry. The stop therefore only rises and fires
when it is reached; the time exit compares clock readings by unsigned subtraction, and is right as
long as the clock is not behind the entry when it is asked.
-/

namespace TradingTerminal

open Lib

/-- A tick of the record: its price and the reading of the clock. -/
structure SeenTick where
  price : ℚ
  now : UInt64

/-- The price of a tick is positive. -/
def StrategyEvent.PositivePrice : StrategyEvent → Prop
  | .tick t _ => 0 < t.price
  | _ => True

instance : DecidablePred StrategyEvent.PositivePrice
  | .tick t _ => inferInstanceAs (Decidable (0 < t.price))
  | .filled _ => .isTrue trivial
  | .rejected _ => .isTrue trivial
  | .resetVwap _ => .isTrue trivial

/-- A strategy, and per symbol the ticks since and including the one of the latest BUY. -/
structure Watched where
  strategy : LiveStrategy
  since : String → List SeenTick := fun _ => []

namespace Watched

/-- What a tick adds to the record of its symbol. -/
def record (seen : List SeenTick) (tick : Tick) (now : UInt64) (signal : Signal) : List SeenTick :=
  let entry : SeenTick := { price := tick.price, now }
  if signal.orders.any (·.isBuy) then [entry] else seen ++ [entry]

def step (w : Watched) (event : StrategyEvent) : Watched :=
  let (signal, strategy) := w.strategy.handle event
  match event, signal with
  | .tick tick now, some signal =>
    { strategy
      since := Function.update w.since tick.symbol (record (w.since tick.symbol) tick now signal) }
  | _, _ => { w with strategy }

/-- A strategy as the terminal builds it, before its first tick. -/
def start (params : StrategyParams) : Watched := { strategy := .create params }

/-! ## The promises -/

/-- The highest price of a position is the maximum since and including its entry, and the stop
stands below it. -/
def StopBelowHighest (w : Watched) : Prop :=
  ∀ symbol, (w.strategy.position symbol).inPosition = true →
    IsGreatest {x | ∃ seen ∈ w.since symbol, seen.price = x}
        (w.strategy.position symbol).highestPrice ∧
      (w.strategy.position symbol).trailingStop =
        (1 - w.strategy.trailingStopPct) * (w.strategy.position symbol).highestPrice

/-- An event does not lower the stop of a position. -/
def StopKept (w : Watched) (event : StrategyEvent) : Prop :=
  ∀ symbol, (w.strategy.position symbol).inPosition = true →
    (w.strategy.position symbol).trailingStop ≤
      ((w.step event).strategy.position symbol).trailingStop

/-- A tick at or below the stop of a position with no exit outstanding sells. -/
def StopFires (w : Watched) : StrategyEvent → Prop
  | .tick tick now =>
    let p := w.strategy.position tick.symbol
    p.inPosition = true → p.pendingExit = false → tick.price ≤ p.trailingStop →
      (w.strategy.generateSignal tick now).1.valid = true ∧
        ∃ order, (w.strategy.generateSignal tick now).1.orders = [order] ∧
          order.isBuy = false ∧ order.symbol = tick.symbol
  | _ => True

/-- An exit for the time held comes more than `max_hold_seconds` after the entry, by the readings of
the clock. -/
def HoldElapsed (w : Watched) : StrategyEvent → Prop
  | .tick tick now =>
    let signal := (w.strategy.generateSignal tick now).1
    (∃ order ∈ signal.orders, order.isBuy = false) → signal.reason = "max_hold" →
      ∃ entry, (w.since tick.symbol).head? = some entry ∧
        w.strategy.maxHoldSeconds < ((clockSeconds now).toNat : ℚ) - (clockSeconds entry.now).toNat
  | _ => True

instance (w : Watched) : DecidablePred w.HoldElapsed
  | .tick tick _ =>
    inferInstanceAs (Decidable (_ → _ → ∃ entry ∈ (w.since tick.symbol).head?, _))
  | .filled _ => .isTrue trivial
  | .rejected _ => .isTrue trivial
  | .resetVwap _ => .isTrue trivial

/-- The clock is not behind the entry time of a position with no exit outstanding, unless an exit
falls due that does not ask for the time held. -/
def ClockAhead (w : Watched) : StrategyEvent → Prop
  | .tick tick now =>
    let p := w.strategy.position tick.symbol
    let held : PositionState := p.raiseStop w.strategy.trailingStopPct tick.price
    p.inPosition = true → p.pendingExit = false →
      w.strategy.exitTest tick now { held with entryTime := clockSeconds now } = none →
        p.entryTime ≤ clockSeconds now
  | _ => True

/-! ## A position and its record -/

/-- The fields of a position, read off the ticks since its entry. -/
structure Held (pct : ℚ) (p : PositionState) (seen : List SeenTick) : Prop where
  greatest : IsGreatest {x | ∃ tick ∈ seen, tick.price = x} p.highestPrice
  stop : p.trailingStop = (1 - pct) * p.highestPrice
  entry : ∃ first, seen.head? = some first ∧ p.entryTime = clockSeconds first.now

variable {pct price : ℚ} {p p' : PositionState} {seen : List SeenTick}

theorem Held.congr (h : Held pct p seen) (hhighest : p'.highestPrice = p.highestPrice)
    (hstop : p'.trailingStop = p.trailingStop) (hentry : p'.entryTime = p.entryTime) :
    Held pct p' seen := by
  constructor
  · rw [hhighest]
    exact h.greatest
  · rw [hstop, hhighest]
    exact h.stop
  · rw [hentry]
    exact h.entry

theorem Held.enter (p : PositionState) (pct price : ℚ) (now : UInt64) :
    Held pct (p.enter pct price (clockSeconds now)) [{ price, now }] := by
  refine ⟨⟨⟨_, List.mem_singleton_self _, rfl⟩, ?_⟩, mul_comm _ _, ⟨_, rfl, rfl⟩⟩
  rintro _ ⟨tick, htick, rfl⟩
  rw [List.mem_singleton.1 htick]
  exact le_refl _

/-- The stop follows a new highest price and stays where there is none. -/
theorem Held.raiseStop (h : Held pct p seen) (new : SeenTick) :
    Held pct (p.raiseStop pct new.price) (seen ++ [new]) := by
  have hmem : ∀ x, (∃ tick ∈ seen ++ [new], tick.price = x) ↔
      (∃ tick ∈ seen, tick.price = x) ∨ new.price = x := by
    intro x
    simp only [List.mem_append, List.mem_singleton, or_and_right, exists_or, exists_eq_left]
  obtain ⟨first, hfirst, hentry⟩ := h.entry
  have hhead : (seen ++ [new]).head? = some first := by
    rw [List.head?_append, hfirst, Option.some_or]
  unfold PositionState.raiseStop
  split
  · next hnew =>
    refine ⟨⟨(hmem _).2 (Or.inr rfl), ?_⟩, mul_comm _ _, ⟨first, hhead, hentry⟩⟩
    intro x hx
    rcases (hmem x).1 hx with hold | rfl
    · exact (h.greatest.2 hold).trans hnew.le
    · exact le_refl _
  · next hnew =>
    refine ⟨⟨(hmem _).2 (Or.inl h.greatest.1), ?_⟩, h.stop, ⟨first, hhead, hentry⟩⟩
    intro x hx
    rcases (hmem x).1 hx with hold | rfl
    · exact h.greatest.2 hold
    · exact not_lt.1 hnew

theorem Held.stop_le_raiseStop (h : Held pct p seen) (hpct : pct ≤ 1) (price : ℚ) :
    p.trailingStop ≤ (p.raiseStop pct price).trailingStop := by
  unfold PositionState.raiseStop
  split
  · next hnew =>
    rw [h.stop, mul_comm]
    exact mul_le_mul_of_nonneg_right hnew.le (by linarith)
  · exact le_refl _

/-- A price at or below the stop is no new highest price. -/
theorem Held.raiseStop_eq (h : Held pct p seen) (hpct : 0 ≤ pct)
    (hpos : ∀ tick ∈ seen, 0 < tick.price) (hprice : price ≤ p.trailingStop) :
    p.raiseStop pct price = p := by
  obtain ⟨top, htop, hhighest⟩ := h.greatest.1
  have hhigh : 0 < p.highestPrice := hhighest ▸ hpos top htop
  have hbelow : price ≤ p.highestPrice := by
    rw [h.stop] at hprice
    have hcut : 0 ≤ pct * p.highestPrice := mul_nonneg hpct hhigh.le
    linarith
  exact if_neg (not_lt.2 hbelow)

/-! ## One event -/

/-- What is known of the positions of a strategy that was watched from its start. -/
structure Tracked (w : Watched) : Prop where
  held : ∀ symbol, (w.strategy.position symbol).inPosition = true →
    Held w.strategy.trailingStopPct (w.strategy.position symbol) (w.since symbol)
  warm : ∀ symbol, (w.strategy.position symbol).inPosition = true →
    w.strategy.warmUp ≤ (w.strategy.window symbol).length
  percent : 0 ≤ w.strategy.trailingStopPct ∧ w.strategy.trailingStopPct ≤ 1
  limit : 0 ≤ w.strategy.maxHoldSeconds ∧ w.strategy.maxHoldSeconds ≤ 300

variable {w : Watched}

@[simp] theorem step_strategy (w : Watched) (event : StrategyEvent) :
    (w.step event).strategy = (w.strategy.handle event).2 := by
  cases event <;> rfl

theorem step_since_of_ne (w : Watched) {event : StrategyEvent} {symbol : String}
    (h : symbol ≠ event.symbol) : (w.step event).since symbol = w.since symbol := by
  cases event with
  | tick tick now => exact Function.update_of_ne h _ _
  | _ => rfl

theorem step_since_tick (w : Watched) (tick : Tick) (now : UInt64) :
    (w.step (.tick tick now)).since tick.symbol =
      record (w.since tick.symbol) tick now (w.strategy.generateSignal tick now).1 :=
  Function.update_self _ _ _

/-- A tick of a symbol, for the symbol. -/
theorem Tracked.tick_here (h : w.Tracked) (tick : Tick) (now : UInt64)
    (hin : ((w.strategy.generateSignal tick now).2.position tick.symbol).inPosition = true) :
    Held w.strategy.trailingStopPct ((w.strategy.generateSignal tick now).2.position tick.symbol)
        (record (w.since tick.symbol) tick now (w.strategy.generateSignal tick now).1) ∧
      w.strategy.Warm tick := by
  by_cases hwarm : w.strategy.Warm tick
  · refine ⟨?_, hwarm⟩
    have hhere := (w.strategy.generateSignal_warm now hwarm).here
    generalize (w.strategy.generateSignal tick now).2.position tick.symbol = p' at hhere hin
    unfold record
    cases hhere with
    | hold held after orders =>
      rw [orders, after]
      exact (h.held tick.symbol held).raiseStop { price := tick.price, now }
    | exit held idle due after orders =>
      rw [orders, after]
      exact ((h.held tick.symbol held).raiseStop { price := tick.price, now }).congr rfl rfl rfl
    | flat empty after =>
      rw [after, empty] at hin
      cases hin
    | entry empty idle after orders =>
      rw [orders, after]
      exact Held.enter _ _ _ now
  · rw [(w.strategy.generateSignal_cold now hwarm).2.1] at hin
    exact absurd (LiveStrategy.warm_of_le (h.warm tick.symbol hin)) hwarm

theorem Tracked.callback_here (h : w.Tracked) (event : StrategyEvent)
    (hevent : ∀ tick now, event ≠ .tick tick now)
    (hin : ((w.strategy.handle event).2.position event.symbol).inPosition = true) :
    Held w.strategy.trailingStopPct ((w.strategy.handle event).2.position event.symbol)
        (w.since event.symbol) ∧
      w.strategy.warmUp ≤ (w.strategy.window event.symbol).length := by
  obtain ⟨hwas, hhighest, hstop, hentry⟩ := w.strategy.handle_position_of_callback hevent
  exact ⟨(h.held _ (hwas hin)).congr hhighest hstop hentry, h.warm _ (hwas hin)⟩

/-- The fields of a position stay readable off the record. -/
theorem Tracked.step (h : w.Tracked) (event : StrategyEvent) : (w.step event).Tracked := by
  have hpct := w.strategy.handle_trailingStopPct event
  have hwarmUp := w.strategy.handle_warmUp event
  suffices hboth : ∀ symbol, ((w.strategy.handle event).2.position symbol).inPosition = true →
      Held w.strategy.trailingStopPct ((w.strategy.handle event).2.position symbol)
          ((w.step event).since symbol) ∧
        w.strategy.warmUp ≤ ((w.strategy.handle event).2.window symbol).length by
    constructor
    · rw [step_strategy, hpct]
      exact fun symbol hin => (hboth symbol hin).1
    · rw [step_strategy, hwarmUp]
      exact fun symbol hin => (hboth symbol hin).2
    · rw [step_strategy, hpct]
      exact h.percent
    · rw [step_strategy, w.strategy.handle_maxHoldSeconds event]
      exact h.limit
  intro symbol hin
  by_cases hs : symbol = event.symbol
  · subst hs
    rw [w.strategy.handle_window event]
    cases event with
    | tick tick now =>
      rw [StrategyEvent.symbol, step_since_tick]
      exact h.tick_here tick now hin
    | filled order => exact h.callback_here (.filled order) (fun _ _ he => by cases he) hin
    | rejected order => exact h.callback_here (.rejected order) (fun _ _ he => by cases he) hin
    | resetVwap y => exact h.callback_here (.resetVwap y) (fun _ _ he => by cases he) hin
  · rw [w.strategy.handle_position_of_ne hs] at hin ⊢
    rw [step_since_of_ne w hs, w.strategy.handle_window_of_ne hs]
    exact ⟨h.held symbol hin, h.warm symbol hin⟩

theorem tracked_start (params : StrategyParams) : (start params).Tracked := by
  have hparams : (0 ≤ (LiveStrategy.create params).trailingStopPct ∧
      (LiveStrategy.create params).trailingStopPct ≤ 1) ∧
      0 ≤ (LiveStrategy.create params).maxHoldSeconds ∧
        (LiveStrategy.create params).maxHoldSeconds ≤ 300 := by
    cases params with
    | momentum => norm_num [LiveStrategy.create, LiveStrategy.trailingStopPct,
        LiveStrategy.maxHoldSeconds, MomentumStrategy.new]
    | weighted =>
      simp only [LiveStrategy.create, LiveStrategy.trailingStopPct, LiveStrategy.maxHoldSeconds,
        WeightedStrategy.setWeights]
      split <;> norm_num [WeightedStrategy.new]
  refine ⟨fun symbol hin => ?_, fun symbol hin => ?_, hparams.1, hparams.2⟩
  · simp [start] at hin
  · simp [start] at hin

end Watched

/-! ## The exit test -/

namespace LiveStrategy

variable {s : LiveStrategy} {tick : Tick} {now : UInt64} {p : PositionState}

/-- Where no exit is due the price is above the stop. -/
theorem stop_lt_of_exitTest_eq_none (h : s.exitTest tick now p = none) :
    p.trailingStop < tick.price := by
  rw [← not_le]
  intro hstop
  cases s with
  | momentum s =>
    simp only [exitTest, MomentumStrategy.exitReason, if_pos hstop] at h
    split at h <;> cases h
  | weighted s =>
    simp only [exitTest, WeightedStrategy.exitReason, if_pos hstop] at h
    split at h
    · cases h
    · split at h <;> cases h

/-- The time held is asked for last. -/
theorem exitTest_eq_maxHold_iff (tick : Tick) (now : UInt64) (p : PositionState)
    (hmax : 0 ≤ s.maxHoldSeconds) :
    s.exitTest tick now p = some "max_hold" ↔
      s.exitTest tick now { p with entryTime := clockSeconds now } = none ∧
        s.maxHoldSeconds < p.holdTime (clockSeconds now) := by
  have hzero : PositionState.holdTime { p with entryTime := clockSeconds now } (clockSeconds now) =
      0 := by simp [PositionState.holdTime]
  have hprice : PositionState.priceChange { p with entryTime := clockSeconds now } tick.price =
      p.priceChange tick.price := rfl
  cases s with
  | momentum s =>
    have hover : ¬ 0 > s.maxHoldSeconds := not_lt.2 hmax
    simp only [exitTest, MomentumStrategy.exitReason, hzero, hprice, if_neg hover, maxHoldSeconds]
    split_ifs <;> simp [*]
  | weighted s =>
    have hover : ¬ 0 > s.maxHoldSeconds := not_lt.2 hmax
    simp only [exitTest, WeightedStrategy.exitReason, hzero, hprice, if_neg hover, maxHoldSeconds]
    split_ifs <;> simp [*]

end LiveStrategy

/-! ## The clock -/

theorem clockSeconds_lt (now : UInt64) : (clockSeconds now).toNat < 18446744074 := by
  have hlt := now.toNat_lt
  rw [clockSeconds, UInt64.toNat_div]
  change now.toNat / 1000000000 < 18446744074
  omega

/-- The time held exceeds a limit when the readings do, and whenever their difference wraps. -/
theorem lt_holdTime_iff {p : PositionState} {first now : UInt64} {limit : ℚ}
    (hentry : p.entryTime = clockSeconds first) (hlimit : limit ≤ 300) :
    limit < p.holdTime (clockSeconds now) ↔ ¬ p.entryTime ≤ clockSeconds now ∨
      limit < ((clockSeconds now).toNat : ℚ) - (clockSeconds first).toNat := by
  have hfirst := clockSeconds_lt first
  unfold PositionState.holdTime
  rw [hentry]
  by_cases hahead : clockSeconds first ≤ clockSeconds now
  · have hle := UInt64.le_iff_toNat_le.1 hahead
    rw [or_iff_right (not_not.2 hahead), UInt64.toNat_sub_of_le _ _ hahead, Nat.cast_sub hle]
  · refine iff_of_true ?_ (Or.inl hahead)
    have hlt : (clockSeconds now).toNat < (clockSeconds first).toNat :=
      not_le.1 fun hle => hahead (UInt64.le_iff_toNat_le.2 hle)
    -- the difference wraps around to almost 2 ^ 64
    have hwrap : 300 < (clockSeconds now - clockSeconds first).toNat := by
      rw [UInt64.toNat_sub]
      omega
    exact hlimit.trans_lt (by exact_mod_cast hwrap)

namespace Watched

variable {w : Watched}

/-- A tick that finds a position emits nothing, or the SELL that is due. -/
theorem Tracked.tick_held (h : w.Tracked) {tick : Tick} (now : UInt64)
    (hin : (w.strategy.position tick.symbol).inPosition = true) :
    let p := w.strategy.position tick.symbol
    let raised := p.raiseStop w.strategy.trailingStopPct tick.price
    let signal := (w.strategy.generateSignal tick now).1
    ((w.strategy.generateSignal tick now).2.position tick.symbol).trailingStop =
        raised.trailingStop ∧
      ((signal.orders = [] ∧
          (p.pendingExit = false → w.strategy.exitTest tick now raised = none)) ∨
        ∃ order, signal.orders = [order] ∧ order.isBuy = false ∧ order.symbol = tick.symbol ∧
          signal.valid = true ∧ p.pendingExit = false ∧
          w.strategy.exitTest tick now raised = some signal.reason) := by
  have hwarm := LiveStrategy.warm_of_le (h.warm tick.symbol hin)
  have hhere := (w.strategy.generateSignal_warm now hwarm).here
  generalize (w.strategy.generateSignal tick now).2.position tick.symbol = p' at hhere ⊢
  cases hhere with
  | hold held after orders gain undue =>
    rw [after]
    exact ⟨rfl, Or.inl ⟨orders, undue⟩⟩
  | exit held idle due after orders valid reason =>
    rw [after]
    exact ⟨rfl, Or.inr ⟨_, orders, rfl, rfl, valid, idle, reason ▸ due⟩⟩
  | flat empty =>
    rw [hin] at empty
    cases empty
  | entry empty =>
    rw [hin] at empty
    cases empty

/-! ## The trailing stop -/

theorem Tracked.stopBelowHighest (h : w.Tracked) : w.StopBelowHighest :=
  fun symbol hin => ⟨(h.held symbol hin).greatest, (h.held symbol hin).stop⟩

theorem Tracked.stopKept (h : w.Tracked) (event : StrategyEvent) : w.StopKept event := by
  intro symbol hin
  rw [step_strategy]
  by_cases hs : symbol = event.symbol
  · subst hs
    cases event with
    | tick tick now =>
      exact ((h.held _ hin).stop_le_raiseStop h.percent.2 tick.price).trans_eq
        (h.tick_held now hin).1.symm
    | filled order =>
      exact (w.strategy.handle_position_of_callback (fun _ _ he => by cases he)).2.2.1.ge
    | rejected order =>
      exact (w.strategy.handle_position_of_callback (fun _ _ he => by cases he)).2.2.1.ge
    | resetVwap y =>
      exact (w.strategy.handle_position_of_callback (fun _ _ he => by cases he)).2.2.1.ge
  · rw [w.strategy.handle_position_of_ne hs]

/-- The prices of the record are positive. -/
def Positive (w : Watched) : Prop := ∀ symbol, ∀ seen ∈ w.since symbol, 0 < seen.price

theorem Positive.step (h : w.Positive) {event : StrategyEvent} (hprice : event.PositivePrice) :
    (w.step event).Positive := by
  intro symbol
  by_cases hs : symbol = event.symbol
  · subst hs
    cases event with
    | tick tick now =>
      intro seen hseen
      rw [StrategyEvent.symbol, step_since_tick, record] at hseen
      split at hseen
      · rw [List.mem_singleton.1 hseen]
        exact hprice
      · rcases List.mem_append.1 hseen with hold | hnew
        · exact h _ seen hold
        · rw [List.mem_singleton.1 hnew]
          exact hprice
    | filled order => exact h _
    | rejected order => exact h _
    | resetVwap y => exact h _
  · rw [step_since_of_ne w hs]
    exact h symbol

theorem Tracked.stopFires (h : w.Tracked) (hpos : w.Positive) (event : StrategyEvent) :
    w.StopFires event := by
  cases event with
  | tick tick now =>
    intro hin hidle hstop
    have hsame := (h.held _ hin).raiseStop_eq h.percent.1 (hpos _) hstop
    rcases (h.tick_held now hin).2 with ⟨-, hundue⟩ | ⟨order, horders, hsell, hsymbol, hvalid, -⟩
    · have habove := LiveStrategy.stop_lt_of_exitTest_eq_none (hundue hidle)
      rw [hsame] at habove
      exact absurd hstop (not_le.2 habove)
    · exact ⟨hvalid, order, horders, hsell, hsymbol⟩
  | _ => trivial

/-- **The trailing stop.** Over every sequence of events with positive prices, the highest price of a
position is the maximum since its entry with the stop below it, the stop is never lowered, and a
tick that reaches it sells. -/
theorem trailingStop_ratchet (params : StrategyParams) (events : List StrategyEvent)
    (hprices : ∀ event ∈ events, event.PositivePrice) :
    Throughout Watched.step StopBelowHighest (start params) events ∧
      Guarded Watched.step StopKept (start params) events ∧
      Guarded Watched.step StopFires (start params) events := by
  have hall : Throughout Watched.step (fun w => w.Tracked ∧ w.Positive) (start params) events :=
    throughout_of_guarded (G := fun _ _ => True) (H := StrategyEvent.PositivePrice)
      (fun w event hprice h _ => ⟨h.1.step event, h.2.step hprice⟩) hprices
      ⟨tracked_start params, fun _ _ hseen => by cases hseen⟩ (fun _ _ _ => trivial)
  have hat : ∀ {before event}, before ++ [event] <+: events →
      (run Watched.step (start params) before).Tracked ∧
        (run Watched.step (start params) before).Positive :=
    fun hprefix => hall _ ((List.prefix_append _ _).trans hprefix)
  refine ⟨fun before hprefix => (hall before hprefix).1.stopBelowHighest,
    fun before event hprefix => (hat hprefix).1.stopKept event,
    fun before event hprefix => (hat hprefix).1.stopFires (hat hprefix).2 event⟩

/-- Forty-nine quiet ticks and a jump that both strategies buy, all at one reading of the clock. -/
def bought : List StrategyEvent :=
  let tick (price volume : ℚ) : StrategyEvent :=
    .tick { symbol := "AAPL", price, volume } 1000000000000
  List.replicate 49 (tick 100 1) ++ [tick 105 100]

/-- A fall below the stops of 102.9 and 103.425 sells. -/
theorem boughtAndFallen_stopFires :
    let fall : Tick := { symbol := "AAPL", price := 102, volume := 1 }
    (((run Watched.step (start .momentum) bought).strategy.generateSignal fall 0).1.valid = true) ∧
      ((run Watched.step (start .weighted) bought).strategy.generateSignal fall 0).1.valid =
        true := by
  intro fall
  have hmomentum := (trailingStop_ratchet .momentum (bought ++ [.tick fall 0])
    (by decide +kernel)).2.2 bought _ (List.prefix_refl _)
  have hweighted := (trailingStop_ratchet .weighted (bought ++ [.tick fall 0])
    (by decide +kernel)).2.2 bought _ (List.prefix_refl _)
  exact ⟨(hmomentum (by decide +kernel) (by decide +kernel) (by decide +kernel)).1,
    (hweighted (by decide +kernel) (by decide +kernel) (by decide +kernel)).1⟩

/-! ## The time held -/

/-- A tick that finds no position sells nothing. -/
theorem holdElapsed_of_flat (w : Watched) {tick : Tick} (now : UInt64)
    (hin : ¬ (w.strategy.position tick.symbol).inPosition = true) :
    w.HoldElapsed (.tick tick now) := by
  intro hsold
  have hhere := (w.strategy.generateSignal_positions tick now).here
  obtain ⟨order, horder, hsell⟩ := hsold
  generalize (w.strategy.generateSignal tick now).1 = signal at hhere horder
  cases hhere with
  | quiet orders =>
    rw [orders] at horder
    cases horder
  | exit _ _ _ held => exact absurd held hin
  | entry orders _ sized =>
    rw [orders, List.mem_singleton] at horder
    rw [horder, sized.isBuy] at hsell
    cases hsell

theorem Tracked.holdElapsed_iff_of_held (h : w.Tracked) {tick : Tick} (now : UInt64)
    (hin : (w.strategy.position tick.symbol).inPosition = true) :
    w.HoldElapsed (.tick tick now) ↔ w.ClockAhead (.tick tick now) := by
  unfold HoldElapsed ClockAhead
  dsimp only
  obtain ⟨first, hfirst, hentry⟩ := (h.held _ hin).entry
  have hraised : ((w.strategy.position tick.symbol).raiseStop w.strategy.trailingStopPct
      tick.price).entryTime = clockSeconds first.now := by
    rw [← hentry, PositionState.raiseStop]
    split <;> rfl
  have hmax := LiveStrategy.exitTest_eq_maxHold_iff tick now
    ((w.strategy.position tick.symbol).raiseStop w.strategy.trailingStopPct tick.price) h.limit.1
  rw [lt_holdTime_iff hraised h.limit.2, hraised] at hmax
  rw [hentry]
  rcases (h.tick_held now hin).2 with
    ⟨hnone, hundue⟩ | ⟨order, horders, hsell, -, -, hidle, hdue⟩
  · refine iff_of_true (fun hsold => by simp [hnone] at hsold) fun _ hidle hother => ?_
    by_contra hback
    have hheld := hmax.2 ⟨hother, Or.inl hback⟩
    rw [hundue hidle] at hheld
    cases hheld
  · constructor
    · intro helapsed _ _ hother
      by_contra hback
      have hreason := hdue.symm.trans (hmax.2 ⟨hother, Or.inl hback⟩)
      obtain ⟨entry, hhead, hlt⟩ := helapsed ⟨order, by simp [horders], hsell⟩
        (Option.some.inj hreason)
      obtain rfl := Option.some.inj (hfirst.symm.trans hhead)
      have hlt' : (clockSeconds now).toNat < (clockSeconds first.now).toNat :=
        not_le.1 fun hle => hback (UInt64.le_iff_toNat_le.2 hle)
      have hcast : ((clockSeconds now).toNat : ℚ) < (clockSeconds first.now).toNat := by
        exact_mod_cast hlt'
      have hnonneg := h.limit.1
      linarith
    · intro hahead _ hreason
      rw [hreason] at hdue
      obtain ⟨hother, hback | helapsed⟩ := hmax.1 hdue
      · exact absurd (hahead hin hidle hother) hback
      · exact ⟨first, hfirst, helapsed⟩

theorem Tracked.holdElapsed_iff (h : w.Tracked) (event : StrategyEvent) :
    w.HoldElapsed event ↔ w.ClockAhead event := by
  cases event with
  | tick tick now =>
    by_cases hin : (w.strategy.position tick.symbol).inPosition = true
    · exact h.holdElapsed_iff_of_held now hin
    · exact iff_of_true (w.holdElapsed_of_flat now hin) fun held => absurd held hin
  | _ => exact Iff.rfl

/-- **Exits by time.** Over every sequence of events and clock readings, the exits for the time held
come after the time held if and only if the clock never stands behind the entry of a position when
no other exit is due. -/
theorem holdElapsed_iff_clockAhead (params : StrategyParams) (events : List StrategyEvent) :
    Guarded Watched.step HoldElapsed (start params) events ↔
      Guarded Watched.step ClockAhead (start params) events :=
  guarded_congr (I := Tracked) (fun _ event h _ => h.step event)
    (fun _ event h => h.holdElapsed_iff event) (tracked_start params)

/-- The clock is set back by a second, and both strategies sell for the time held. -/
theorem setBack_not_holdElapsed :
    let later : StrategyEvent := .tick { symbol := "AAPL", price := 105, volume := 100 } 999000000000
    ¬ Guarded Watched.step HoldElapsed (start .momentum) (bought ++ [later]) ∧
      ¬ Guarded Watched.step HoldElapsed (start .weighted) (bought ++ [later]) := by
  intro later
  constructor
  · intro h
    exact absurd (h bought later (List.prefix_refl _)) (by decide +kernel)
  · intro h
    exact absurd (h bought later (List.prefix_refl _)) (by decide +kernel)

end Watched

end TradingTerminal
