import TradingTerminal.Strategies.LiveTicks
import TradingTerminal.Lib.Run
import Mathlib.Tactic.Linarith

/-!
# Round trips and the booked P&L

A live strategy whose orders are answered before the next tick, with a record of the answers. The
record alone tells what the round trips of the strategy earned (`roundTripPnl`). The strategy books
a gain when it emits a SELL and keeps it when the SELL is rejected, so the two agree exactly as long
as no SELL that was worth anything is rejected.
-/

namespace TradingTerminal

open Lib

/-- A tick with the reading of the clock and the answer to what is emitted on it: the price of the
fill, or none for a rejection. -/
structure AnsweredTick where
  tick : Tick
  now : UInt64
  fillPrice : Option ℚ

/-- An order as its callback was given it, with the price of the tick it was emitted on. -/
structure AnsweredOrder where
  tickPrice : ℚ
  order : Order
  filled : Bool

/-- A strategy and the answers it was given, the latest first. -/
structure TradeBook where
  strategy : LiveStrategy
  answers : List AnsweredOrder := []

namespace TradeBook

/-- The answer to an order. -/
def answer (x : AnsweredTick) (b : TradeBook) (order : Order) : TradeBook :=
  match x.fillPrice with
  | some price =>
    let order := { order with price }
    { strategy := b.strategy.onOrderFilled order
      answers := { tickPrice := x.tick.price, order, filled := true } :: b.answers }
  | none =>
    { strategy := b.strategy.onOrderRejected order
      answers := { tickPrice := x.tick.price, order, filled := false } :: b.answers }

def step (b : TradeBook) (x : AnsweredTick) : TradeBook :=
  let (signal, strategy) := b.strategy.generateSignal x.tick x.now
  signal.orders.foldl (answer x) { b with strategy }

/-- A strategy as the terminal builds it, before its first tick. -/
def start (params : StrategyParams) : TradeBook := { strategy := .create params }

end TradeBook

/-! ## What the round trips earned -/

/-- The entry price of the round trip of a symbol that has begun and not ended: the price of the
tick on which the BUY was emitted that was filled last, unless a SELL was filled after it. -/
def openTrip (symbol : String) : List AnsweredOrder → Option ℚ
  | [] => none
  | a :: earlier =>
    if a.filled ∧ a.order.symbol = symbol then
      if a.order.isBuy then some a.tickPrice else none
    else openTrip symbol earlier

/-- What a filled SELL completes. -/
def tripGain (size : ℚ) (a : AnsweredOrder) (earlier : List AnsweredOrder) : ℚ :=
  match openTrip a.order.symbol earlier with
  | some entryPrice => (a.tickPrice - entryPrice) * size
  | none => 0

/-- The gains of the completed round trips less the commission of every fill. -/
def roundTripPnl (size : ℚ) : List AnsweredOrder → ℚ
  | [] => 0
  | a :: earlier =>
    if a.filled then
      roundTripPnl size earlier + (if a.order.isBuy then 0 else tripGain size a earlier) -
        5 / 10000 * a.order.price * a.order.quantity
    else roundTripPnl size earlier

/-- Two changes at a symbol, one after the other. -/
theorem OnlyAt.trans {symbol : String} {change change' : PositionState → PositionState → Prop}
    {before between after : String → PositionState} (h : OnlyAt symbol change before between)
    (h' : OnlyAt symbol change' between after) :
    OnlyAt symbol (fun p p'' => ∃ p', change p p' ∧ change' p' p'') before after :=
  ⟨⟨between symbol, h.here, h'.here⟩, fun y hy => (h'.others y hy).trans (h.others y hy)⟩

namespace TradeBook

/-- The P&L of the strategy is what its round trips earned. -/
def CountsOnce (b : TradeBook) : Prop :=
  b.strategy.pnl = roundTripPnl b.strategy.positionSize b.answers

instance (b : TradeBook) : Decidable b.CountsOnce := inferInstanceAs (Decidable (_ = _))

/-- A tick on which the exit of a position falls due is answered by a fill, unless there is nothing
to gain or to lose by the exit. -/
def ExitFilled (b : TradeBook) (x : AnsweredTick) : Prop :=
  x.fillPrice = none → b.strategy.exitDue x.tick x.now = true →
    (b.strategy.position x.tick.symbol).inPosition = true →
      (x.tick.price - (b.strategy.position x.tick.symbol).entryPrice) * b.strategy.positionSize = 0

instance (b : TradeBook) (x : AnsweredTick) : Decidable (b.ExitFilled x) :=
  inferInstanceAs (Decidable (_ → _ → _ → _ = _))

/-- The position fields of a symbol between two ticks. -/
structure Trip (p : PositionState) (entryPrice : Option ℚ) : Prop where
  idle : p.pendingExit = false
  trip : entryPrice = if p.inPosition then some p.entryPrice else none

/-- No exit is outstanding, and a position is held exactly where a round trip has begun. -/
def Trips (b : TradeBook) : Prop :=
  ∀ symbol, Trip (b.strategy.position symbol) (openTrip symbol b.answers)

/-! ## One tick -/

theorem Trip.congr {p p' : PositionState} {entryPrice : Option ℚ} (h : Trip p entryPrice)
    (hin : p'.inPosition = p.inPosition) (hpending : p'.pendingExit = p.pendingExit)
    (hentry : p'.entryPrice = p.entryPrice) : Trip p' entryPrice := by
  refine ⟨hpending.trans h.idle, ?_⟩
  rw [hin, hentry]
  exact h.trip

/-- An answer to an order of a symbol leaves the trips of the others. -/
theorem openTrip_of_ne {symbol : String} {a : AnsweredOrder} (h : symbol ≠ a.order.symbol)
    (earlier : List AnsweredOrder) : openTrip symbol (a :: earlier) = openTrip symbol earlier :=
  if_neg fun hs => h hs.2.symm

section Tick

variable {b b' : TradeBook} {x : AnsweredTick} {order : Order}

theorem step_quiet (h : (b.strategy.generateSignal x.tick x.now).1.orders = []) :
    b.step x = { b with strategy := (b.strategy.generateSignal x.tick x.now).2 } := by
  simp only [step, h, List.foldl_nil]

theorem step_order (h : (b.strategy.generateSignal x.tick x.now).1.orders = [order]) :
    b.step x =
      answer x { b with strategy := (b.strategy.generateSignal x.tick x.now).2 } order := by
  simp only [step, h, List.foldl_cons, List.foldl_nil]

/-- A tick and what follows it touch the trip of the tick's symbol only. -/
theorem Trips.of_onlyAt (h : b.Trips) {change : PositionState → PositionState → Prop}
    {symbol : String} (honly : OnlyAt symbol change b.strategy.position b'.strategy.position)
    (hothers : ∀ y, y ≠ symbol → openTrip y b'.answers = openTrip y b.answers)
    (hhere : ∀ p', change (b.strategy.position symbol) p' → Trip p' (openTrip symbol b'.answers)) :
    b'.Trips := by
  intro y
  by_cases hy : y = symbol
  · rw [hy]
    exact hhere _ honly.here
  · rw [honly.others y hy, hothers y hy]
    exact h y

/-- What an answer to an order of a symbol leaves of the trips. -/
theorem Trips.of_answer (h : b.Trips) {change : PositionState → PositionState → Prop}
    {symbol : String} {a : AnsweredOrder} (hsymbol : a.order.symbol = symbol)
    (hanswers : b'.answers = a :: b.answers)
    (honly : OnlyAt symbol change b.strategy.position b'.strategy.position)
    (hhere : ∀ p', change (b.strategy.position symbol) p' →
      Trip p' (openTrip symbol (a :: b.answers))) : b'.Trips := by
  refine h.of_onlyAt honly (fun y hy => ?_) (hanswers ▸ hhere)
  rw [hanswers]
  exact openTrip_of_ne (hsymbol ▸ hy) b.answers

theorem answer_filled (b : TradeBook) (order : Order) {price : ℚ}
    (hfill : x.fillPrice = some price) :
    (answer x b order).strategy.pnl = b.strategy.pnl - price * order.quantity * (5 / 10000) ∧
      (answer x b order).answers =
        { tickPrice := x.tick.price, order := { order with price }, filled := true } :: b.answers ∧
      OnlyAt order.symbol (fun p p' => p' = p.filled order.isBuy) b.strategy.position
        (answer x b order).strategy.position := by
  simp only [answer, hfill]
  exact ⟨b.strategy.onOrderFilled_pnl _, trivial,
    b.strategy.onOrderFilled_positions { order with price }⟩

theorem answer_rejected (b : TradeBook) (order : Order) (hfill : x.fillPrice = none) :
    (answer x b order).strategy.pnl = b.strategy.pnl ∧
      (answer x b order).answers =
        { tickPrice := x.tick.price, order, filled := false } :: b.answers ∧
      OnlyAt order.symbol (fun p p' => p' = p.rejected order.isBuy) b.strategy.position
        (answer x b order).strategy.position := by
  simp only [answer, hfill]
  exact ⟨b.strategy.onOrderRejected_pnl _, trivial, b.strategy.onOrderRejected_positions _⟩

@[simp] theorem step_positionSize (b : TradeBook) (x : AnsweredTick) :
    (b.step x).strategy.positionSize = b.strategy.positionSize := by
  have hanswer : ∀ (orders : List Order) (b : TradeBook),
      (orders.foldl (answer x) b).strategy.positionSize = b.strategy.positionSize := by
    intro orders
    induction orders with
    | nil => exact fun _ => rfl
    | cons order orders ih =>
      intro b
      rw [List.foldl_cons, ih, answer]
      split
      · exact b.strategy.onOrderFilled_positionSize _
      · exact b.strategy.onOrderRejected_positionSize _
  exact (hanswer _ _).trans (b.strategy.generateSignal_positionSize x.tick x.now)

/-- By how much the P&L of the strategy exceeds what its round trips earned. -/
def surplus (b : TradeBook) : ℚ :=
  b.strategy.pnl - roundTripPnl b.strategy.positionSize b.answers

/-- The gain that a tick books for a SELL that is rejected. -/
def misbooked (b : TradeBook) (x : AnsweredTick) : ℚ :=
  if x.fillPrice = none ∧ b.strategy.exitDue x.tick x.now = true ∧
      (b.strategy.position x.tick.symbol).inPosition = true then
    (x.tick.price - (b.strategy.position x.tick.symbol).entryPrice) * b.strategy.positionSize
  else 0

theorem misbooked_of_undue (h : ¬ (b.strategy.exitDue x.tick x.now = true ∧
    (b.strategy.position x.tick.symbol).inPosition = true)) : b.misbooked x = 0 :=
  if_neg fun hs => h hs.2

/-- What a tick that emits nothing leaves. -/
theorem step_quiet_spec (h : b.Trips)
    (horders : (b.strategy.generateSignal x.tick x.now).1.orders = [])
    (hpnl : (b.strategy.generateSignal x.tick x.now).2.pnl = b.strategy.pnl)
    (hpositions : OnlyAt x.tick.symbol (fun p p' => p'.inPosition = p.inPosition ∧
       p'.pendingExit = p.pendingExit ∧ p'.entryPrice = p.entryPrice) b.strategy.position
        (b.strategy.generateSignal x.tick x.now).2.position) :
    (b.step x).Trips ∧ (b.step x).surplus = b.surplus := by
  rw [step_quiet horders]
  refine ⟨h.of_onlyAt hpositions (fun _ _ => rfl) fun p' hsame => ?_, ?_⟩
  · exact (h x.tick.symbol).congr hsame.1 hsame.2.1 hsame.2.2
  · simp only [surplus, hpnl, LiveStrategy.generateSignal_positionSize]

/-- What a tick that emits an order of its symbol leaves once the order is filled. -/
theorem step_filled_spec {price : ℚ} {change : PositionState → PositionState → Prop}
    (hfill : x.fillPrice = some price)
    (horders : (b.strategy.generateSignal x.tick x.now).1.orders = [order])
    (hsymbol : order.symbol = x.tick.symbol)
    (hpositions : OnlyAt x.tick.symbol change b.strategy.position
      (b.strategy.generateSignal x.tick x.now).2.position) :
    (b.step x).strategy.pnl = (b.strategy.generateSignal x.tick x.now).2.pnl -
        price * order.quantity * (5 / 10000) ∧
      (b.step x).answers =
        { tickPrice := x.tick.price, order := { order with price }, filled := true } :: b.answers ∧
      OnlyAt x.tick.symbol (fun p p'' => ∃ p', change p p' ∧ p'' = p'.filled order.isBuy)
        b.strategy.position (b.step x).strategy.position := by
  rw [step_order horders]
  obtain ⟨hpnl, hanswers, hchange⟩ := answer_filled
    { b with strategy := (b.strategy.generateSignal x.tick x.now).2 } order hfill
  rw [hsymbol] at hchange
  exact ⟨hpnl, hanswers, hpositions.trans hchange⟩

theorem step_rejected_spec {change : PositionState → PositionState → Prop}
    (hfill : x.fillPrice = none)
    (horders : (b.strategy.generateSignal x.tick x.now).1.orders = [order])
    (hsymbol : order.symbol = x.tick.symbol)
    (hpositions : OnlyAt x.tick.symbol change b.strategy.position
      (b.strategy.generateSignal x.tick x.now).2.position) :
    (b.step x).strategy.pnl = (b.strategy.generateSignal x.tick x.now).2.pnl ∧
      (b.step x).answers =
        { tickPrice := x.tick.price, order, filled := false } :: b.answers ∧
      OnlyAt x.tick.symbol (fun p p'' => ∃ p', change p p' ∧ p'' = p'.rejected order.isBuy)
        b.strategy.position (b.step x).strategy.position := by
  rw [step_order horders]
  obtain ⟨hpnl, hanswers, hchange⟩ := answer_rejected
    { b with strategy := (b.strategy.generateSignal x.tick x.now).2 } order hfill
  rw [hsymbol] at hchange
  exact ⟨hpnl, hanswers, hpositions.trans hchange⟩

/-- A SELL that is filled ends the trip and earns what the tick booked; one that is rejected leaves
the trip and what was booked for it. -/
theorem Trips.step_exit (h : b.Trips)
    (held : (b.strategy.position x.tick.symbol).inPosition = true)
    (hdue : b.strategy.exitDue x.tick x.now = true)
    (horders : (b.strategy.generateSignal x.tick x.now).1.orders =
      [marketOrder x.tick.symbol x.tick.bid b.strategy.positionSize false])
    (hgain : (b.strategy.generateSignal x.tick x.now).2.pnl - b.strategy.pnl =
      (x.tick.price - (b.strategy.position x.tick.symbol).entryPrice) * b.strategy.positionSize)
    (hpositions : OnlyAt x.tick.symbol
      (fun p p' => p'.inPosition = true ∧ p'.entryPrice = p.entryPrice) b.strategy.position
      (b.strategy.generateSignal x.tick x.now).2.position) :
    (b.step x).Trips ∧ (b.step x).surplus = b.surplus + b.misbooked x := by
  have htrip := (h x.tick.symbol).trip
  rw [if_pos held] at htrip
  cases hfill : x.fillPrice with
  | some price =>
    obtain ⟨hpnl, hanswers, hchange⟩ := step_filled_spec hfill horders rfl hpositions
    have hearned : tripGain b.strategy.positionSize
        { tickPrice := x.tick.price
          order := { marketOrder x.tick.symbol x.tick.bid b.strategy.positionSize false with price }
          filled := true } b.answers =
        (x.tick.price - (b.strategy.position x.tick.symbol).entryPrice) *
          b.strategy.positionSize := by
      simp only [tripGain, marketOrder, htrip]
    have hmisbooked : b.misbooked x = 0 := if_neg fun hs => by simp [hfill] at hs
    refine ⟨h.of_answer rfl hanswers hchange ?_, ?_⟩
    · rintro _ ⟨p', -, rfl⟩
      exact ⟨rfl, by simp [openTrip, marketOrder, PositionState.filled]⟩
    · rw [hmisbooked, surplus, surplus, step_positionSize, hpnl, hanswers, roundTripPnl, hearned]
      simp only [marketOrder, if_true, Bool.false_eq_true, if_false]
      linarith
  | none =>
    obtain ⟨hpnl, hanswers, hchange⟩ := step_rejected_spec hfill horders rfl hpositions
    have hmisbooked : b.misbooked x =
        (x.tick.price - (b.strategy.position x.tick.symbol).entryPrice) *
          b.strategy.positionSize := if_pos ⟨hfill, hdue, held⟩
    refine ⟨h.of_answer rfl hanswers hchange ?_, ?_⟩
    · rintro _ ⟨p', ⟨hin, hentry⟩, rfl⟩
      refine ⟨rfl, ?_⟩
      simp [openTrip, marketOrder, PositionState.rejected, htrip, hin, hentry]
    · rw [hmisbooked, surplus, surplus, step_positionSize, hpnl, hanswers, roundTripPnl]
      simp only [Bool.false_eq_true, if_false]
      linarith

theorem Trips.step_entry (h : b.Trips)
    (empty : (b.strategy.position x.tick.symbol).inPosition = false)
    (horders : (b.strategy.generateSignal x.tick x.now).1.orders =
      [marketOrder x.tick.symbol x.tick.ask b.strategy.positionSize true])
    (hpnl' : (b.strategy.generateSignal x.tick x.now).2.pnl = b.strategy.pnl)
    (hpositions : OnlyAt x.tick.symbol (fun p p' => p'.inPosition = true ∧
        p'.pendingExit = p.pendingExit ∧ p'.entryPrice = x.tick.price) b.strategy.position
      (b.strategy.generateSignal x.tick x.now).2.position) :
    (b.step x).Trips ∧ (b.step x).surplus = b.surplus := by
  have htrip := (h x.tick.symbol).trip
  rw [empty] at htrip
  cases hfill : x.fillPrice with
  | some price =>
    obtain ⟨hpnl, hanswers, hchange⟩ := step_filled_spec hfill horders rfl hpositions
    refine ⟨h.of_answer rfl hanswers hchange ?_, ?_⟩
    · rintro _ ⟨p', ⟨hin, hpending, hentry⟩, rfl⟩
      refine ⟨hpending.trans (h x.tick.symbol).idle, ?_⟩
      simp [openTrip, marketOrder, hin, hentry]
    · rw [surplus, surplus, step_positionSize, hpnl, hpnl', hanswers, roundTripPnl]
      simp only [marketOrder, if_true]
      linarith
  | none =>
    obtain ⟨hpnl, hanswers, hchange⟩ := step_rejected_spec hfill horders rfl hpositions
    refine ⟨h.of_answer rfl hanswers hchange ?_, ?_⟩
    · rintro _ ⟨p', ⟨hin, hpending, hentry⟩, rfl⟩
      refine ⟨hpending.trans (h x.tick.symbol).idle, ?_⟩
      simp [openTrip, marketOrder, PositionState.rejected, htrip]
    · rw [surplus, surplus, step_positionSize, hpnl, hpnl', hanswers, roundTripPnl]
      simp

/-- **One tick.** The trips stay in step with the answers, and the surplus grows by what the tick
books for a SELL that is rejected. -/
theorem Trips.step (h : b.Trips) (x : AnsweredTick) :
    (b.step x).Trips ∧ (b.step x).surplus = b.surplus + b.misbooked x := by
  by_cases hwarm : b.strategy.Warm x.tick
  · have htraded := b.strategy.generateSignal_warm x.now hwarm
    have hhere := htraded.here
    have honly : ∀ {change : PositionState → PositionState → Prop},
        change (b.strategy.position x.tick.symbol)
          ((b.strategy.generateSignal x.tick x.now).2.position x.tick.symbol) →
        OnlyAt x.tick.symbol change b.strategy.position
          (b.strategy.generateSignal x.tick x.now).2.position := fun hc => ⟨hc, htraded.others⟩
    cases hhere with
    | hold held after orders gain undue =>
      have hundue : b.misbooked x = 0 := misbooked_of_undue fun hs => by
        obtain ⟨-, reason, hreason⟩ := (b.strategy.exitDue_iff _ _).1 hs.1
        rw [undue (h x.tick.symbol).idle] at hreason
        cases hreason
      rw [hundue, add_zero]
      refine step_quiet_spec h orders (sub_eq_zero.1 gain) (honly ?_)
      rw [after]
      exact ⟨PositionState.raiseStop_inPosition .., PositionState.raiseStop_pendingExit ..,
        PositionState.raiseStop_entryPrice ..⟩
    | exit held idle due after orders valid reason gain =>
      have hdue := (b.strategy.exitDue_iff x.tick x.now).2 ⟨hwarm, _, due⟩
      refine h.step_exit held hdue orders gain (honly ?_)
      rw [after]
      exact ⟨(PositionState.raiseStop_inPosition ..).trans held,
        PositionState.raiseStop_entryPrice ..⟩
    | flat empty after orders gain =>
      have hundue : b.misbooked x = 0 := misbooked_of_undue fun hs => by
        rw [empty] at hs
        cases hs.2
      rw [hundue, add_zero]
      refine step_quiet_spec h orders (sub_eq_zero.1 gain) (honly ?_)
      rw [after]
      exact ⟨rfl, rfl, rfl⟩
    | entry empty idle after orders gain =>
      have hundue : b.misbooked x = 0 := misbooked_of_undue fun hs => by
        rw [empty] at hs
        cases hs.2
      rw [hundue, add_zero]
      refine h.step_entry empty orders (sub_eq_zero.1 gain) (honly ?_)
      rw [after]
      exact ⟨rfl, rfl, rfl⟩
  · obtain ⟨hsignal, hpositions, hpnl⟩ := b.strategy.generateSignal_cold x.now hwarm
    have hundue : b.misbooked x = 0 :=
      misbooked_of_undue fun hs => hwarm ((b.strategy.exitDue_iff _ _).1 hs.1).1
    rw [hundue, add_zero]
    refine step_quiet_spec h (by rw [hsignal]) hpnl ⟨?_, fun y _ => ?_⟩
    · rw [hpositions]
      exact ⟨rfl, rfl, rfl⟩
    · rw [hpositions]

theorem exitFilled_iff : b.ExitFilled x ↔ b.misbooked x = 0 := by
  unfold ExitFilled misbooked
  split
  · next hs => simp [hs.1, hs.2.1, hs.2.2]
  · next hs =>
    refine iff_of_true (fun hfill hdue held => absurd ⟨hfill, hdue, held⟩ hs) rfl

theorem countsOnce_iff : b.CountsOnce ↔ b.surplus = 0 := sub_eq_zero.symm

end Tick

/-! ## Runs -/

theorem trips_start (params : StrategyParams) : (start params).Trips := by
  intro symbol
  simp only [start, LiveStrategy.create_position]
  exact ⟨rfl, rfl⟩

theorem countsOnce_start (params : StrategyParams) : (start params).CountsOnce := by
  cases params with
  | momentum => rfl
  | weighted =>
    simp only [start, CountsOnce, LiveStrategy.create, LiveStrategy.pnl, WeightedStrategy.setWeights]
    split <;> rfl

/-- **Round trips.** Over every stream of ticks whose orders are answered one by one, the P&L of a
strategy is what its round trips earned if and only if no SELL is rejected that had a gain or a
loss. -/
theorem countsOnce_iff_exitFilled (params : StrategyParams) (ticks : List AnsweredTick) :
    Throughout TradeBook.step CountsOnce (start params) ticks ↔
      Guarded TradeBook.step ExitFilled (start params) ticks := by
  refine throughout_iff_guarded (I := fun b : TradeBook => b.Trips ∧ b.CountsOnce)
    (H := fun _ => True) (fun _ h => h.2) (fun b x _ h hfilled => ?_) (fun b x _ h hfilled hcounts => ?_)
    (fun _ _ => trivial) ⟨trips_start params, countsOnce_start params⟩
  · obtain ⟨htrips, hsurplus⟩ := h.1.step x
    refine ⟨htrips, countsOnce_iff.2 ?_⟩
    rw [hsurplus, countsOnce_iff.1 h.2, exitFilled_iff.1 hfilled, add_zero]
  · obtain ⟨-, hsurplus⟩ := h.1.step x
    rw [countsOnce_iff.1 hcounts, countsOnce_iff.1 h.2, zero_add] at hsurplus
    exact hfilled (exitFilled_iff.2 hsurplus.symm)

/-- Forty-nine quiet ticks, a jump that both strategies buy, and a fall below the trailing stop. The
first SELL is rejected, the second one is filled. -/
def retriedExit : List AnsweredTick :=
  let tick (price volume : ℚ) (fillPrice : Option ℚ) : AnsweredTick :=
    { tick := { symbol := "AAPL", price, volume, bid := price, ask := price }, now := 0, fillPrice }
  List.replicate 49 (tick 100 1 none) ++
    [tick 105 100 (some 105), tick 99 1 none, tick 99 1 (some 99)]

/-- One round trip, and its loss is booked twice. -/
theorem retriedExit_not_countsOnce :
    ¬ Throughout TradeBook.step CountsOnce (start .momentum) retriedExit ∧
      ¬ Throughout TradeBook.step CountsOnce (start .weighted) retriedExit := by
  constructor
  · intro h
    exact absurd h.last (by decide +kernel)
  · intro h
    exact absurd h.last (by decide +kernel)

end TradeBook

end TradingTerminal
