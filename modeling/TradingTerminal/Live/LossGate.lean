import TradingTerminal.Live.OrderPath
import TradingTerminal.Live.FifoLots

/-!
# The daily loss and trade limits on the order path

`realisedPnl` is the profit of the accepted orders when sells are matched with earlier buys first in,
first out, at the prices the code books. `LimitReached` says that one of the daily limits has been
reached by the orders the exchange accepted. The order manager drives neither `record_trade` nor
`update_daily_pnl`, so the counters the gates read stay at zero (`IdleCounters`): a signal that comes
after a limit was reached is stopped exactly when something else stops it
(`stopsTrading_iff_blockedOtherwise`).
-/

namespace TradingTerminal

open Lib

/-! ## The realised profit of a list of orders -/

/-- One accepted order, booked at the price the code books it at. An order of no positive quantity
matches nothing. -/
def matchOrder (s : UMap String (List Lot) × ℚ) (order : Order) : UMap String (List Lot) × ℚ :=
  let lots := UMap.getD s.1 order.symbol []
  if order.quantity ≤ 0 then s
  else if order.isBuy then
    (s.1.insert order.symbol (lots ++ [⟨order.priceOrOne, order.quantity⟩]), s.2)
  else
    let (rest, pnl) := sellFifo order.priceOrOne order.quantity lots
    (s.1.insert order.symbol rest, s.2 + pnl)

/-- The profit realised by a list of orders. -/
def realisedPnl (orders : List Order) : ℚ := (orders.foldl matchOrder (∅, 0)).2

/-! ## Reached limits and the gates -/

/-- One of the daily limits has been reached by the orders the exchange accepted: the loss limit of
the breaker, the loss limit of the risk manager, or the trade limit of the breaker. -/
def LimitReached (l : Limits) (b : CircuitBreaker) (p : OrderPath) : Prop :=
  b.dailyLossLimit * b.initialCapital ≤ -realisedPnl (accepted p.sent) ∨
    l.maxDailyLoss < -realisedPnl (accepted p.sent) ∨
    b.maxDailyTrades ≤ (accepted p.sent).length

/-- Once a limit has been reached in a run, no later signal of the run queues an order. -/
def StopsTrading (l : Limits) (b : CircuitBreaker) (xs : List PathInput) : Prop :=
  ∀ earlier between signal now balance timestamp,
    earlier ++ between ++ [.signal signal now balance timestamp] <+: xs →
    LimitReached l b (run (OrderPath.step RiskManager.canSubmitOrder) (.fresh l b) earlier) →
    let p := run (OrderPath.step RiskManager.canSubmitOrder) (.fresh l b) (earlier ++ between)
    (p.manager.processSignal RiskManager.canSubmitOrder signal now balance timestamp).orderQueue =
      p.manager.orderQueue

/-- The order is refused by a test that reads neither the losses nor the trade counters: its own
size, the cash, the position and exposure caps of a BUY, or the short-sell guard of a SELL. -/
def SizedOut (r : RiskManager) (order : Order) (balance : ℚ) : Prop :=
  let notional := order.quantity * order.priceOrOne
  r.limits.maxOrderSize < notional ∨
    (order.isBuy = true ∧
      (balance - notional < r.limits.minBalance ∨
        r.limits.maxPositionSize < (r.position order.symbol + order.quantity) * order.priceOrOne ∨
        r.limits.maxPortfolioExposure < r.totalExposure + notional)) ∨
    (order.isBuy = false ∧ r.position order.symbol < order.quantity)

/-- Without realised profit or loss the check fails for a limit on losses that zero exceeds, for a
used-up trade limit, or for the size of the order. -/
theorem RiskManager.canSubmitOrder_eq_false {r : RiskManager} (hpnl : r.dailyRealizedPnl = 0)
    (order : Order) (balance : ℚ) :
    r.canSubmitOrder order balance order.priceOrOne = false ↔
      r.limits.maxDailyLoss < 0 ∨ r.limits.maxDailyTrades ≤ r.todayTrades ∨
        SizedOut r order balance := by
  rw [← Bool.not_eq_true, RiskManager.canSubmitOrder_iff]
  have hprice := order.priceOrOne_pos
  constructor
  · intro hno
    by_contra hcon
    simp only [SizedOut, not_or, not_and, not_lt, not_le] at hcon
    obtain ⟨hloss, htrades, hsize, hbuy, hsell⟩ := hcon
    refine hno ⟨⟨hprice, ?_, hsize, fun hb => (hbuy hb).1⟩, ⟨htrades, fun hb => (hbuy hb).2.1,
      fun hb => (hbuy hb).2.2, hsell⟩⟩
    rw [hpnl]
    linarith
  · rintro hblock ⟨ha, hf⟩
    rcases hblock with hloss | htrades | hsize | ⟨hb, hcash | hcap | hexp⟩ | ⟨hb, hheld⟩
    · have := ha.loss
      rw [hpnl] at this
      linarith
    · exact absurd hf.trades (not_lt.2 htrades)
    · exact absurd ha.size (not_le.2 hsize)
    · exact absurd (ha.cash hb) (not_le.2 hcash)
    · exact absurd (hf.symbolCap hb) (not_le.2 hcap)
    · exact absurd (hf.exposure hb) (not_le.2 hexp)
    · exact absurd (hf.held hb) (not_le.2 hheld)

/-- A signal is stopped by something other than the losses and the breaker's trade counter: it is
not valid, the loss limit is negative so that zero loss exceeds it, the risk manager's own trade
limit is used up by the accepted orders, or every order is refused for its size. -/
def BlockedOtherwise (l : Limits) (p : OrderPath) (signal : Signal) (balance : Nat → ℚ) : Prop :=
  signal.valid = false ∨ l.maxDailyLoss < 0 ∨ l.maxDailyTrades ≤ (accepted p.sent).length ∨
    ∀ x ∈ signal.orders.zipIdx, SizedOut p.manager.risk x.1 (balance x.2)

/-- The counters the gates read stand where they started, but for the risk manager's trade counter,
which counts the accepted orders. -/
structure IdleCounters (l : Limits) (capital : ℚ) (p : OrderPath) : Prop where
  limits : p.manager.risk.limits = l
  dailyRealizedPnl : p.manager.risk.dailyRealizedPnl = 0
  todayTrades : p.manager.risk.todayTrades = (accepted p.sent).length
  breaker : ∃ lastReset, p.manager.breaker = .new capital lastReset

/-- A breaker without counts looks at the clock and changes nothing but the time of its reset. -/
theorem checkAndResetDaily_of_zero {b : CircuitBreaker} (hpnl : b.dailyPnl = 0)
    (htrades : b.tradeCount = 0) (htripped : b.tripped = false) (now : TimePoint) :
    ∃ lastReset, b.checkAndResetDaily now = { b with lastReset } := by
  unfold CircuitBreaker.checkAndResetDaily
  split
  · exact ⟨now, by rw [hpnl, htrades, htripped]⟩
  · exact ⟨b.lastReset, rfl⟩

/-- A breaker whose counters are at zero lets trading go on, whatever the clock says. -/
theorem canTrade_new (capital : ℚ) (lastReset now : TimePoint) :
    ((CircuitBreaker.new capital lastReset).canTrade now).1 = true ∧
      ∃ lastReset', ((CircuitBreaker.new capital lastReset).canTrade now).2 =
        .new capital lastReset' := by
  obtain ⟨lastReset', h⟩ :=
    checkAndResetDaily_of_zero (b := CircuitBreaker.new capital lastReset) rfl rfl rfl now
  unfold CircuitBreaker.canTrade
  rw [h]
  have hloss : ¬ (-0 / capital : ℚ) ≥ 0.05 := by norm_num
  have htrades : ¬ (0 : Int) ≥ 50 := by decide
  simp only [CircuitBreaker.new, Bool.false_eq_true, ite_false, hloss, htrades, true_and]
  exact ⟨lastReset', rfl⟩

/-- The counters that nothing drives, and the limits that nothing sets. -/
structure OrderManager.Undriven (l : Limits) (capital : ℚ) (om : OrderManager) : Prop where
  limits : om.risk.limits = l
  dailyRealizedPnl : om.risk.dailyRealizedPnl = 0
  breaker : ∃ lastReset, om.breaker = .new capital lastReset

namespace OrderManager.Undriven

variable {l : Limits} {capital : ℚ} {om : OrderManager}

theorem processSignal (h : Undriven l capital om) (d : RiskDecision) (signal : Signal)
    (now : TimePoint) (balance : Nat → ℚ) (timestamp : UInt64) :
    Undriven l capital (om.processSignal d signal now balance timestamp) := by
  have hrisk := (processSignal_frame d om signal now balance timestamp).risk
  refine ⟨hrisk ▸ h.limits, hrisk ▸ h.dailyRealizedPnl, ?_⟩
  obtain ⟨lastReset, hbreaker⟩ := h.breaker
  rw [processSignal_breaker]
  split
  · exact hbreaker ▸ (canTrade_new capital lastReset now).2
  · exact ⟨lastReset, hbreaker⟩

theorem settle (h : Undriven l capital om) (pending : PendingOrder) (answer : String) (latency : Nat) :
    Undriven l capital (om.settle pending answer latency) := by
  refine ⟨?_, ?_, ?_⟩
  · rw [settle_risk]
    split
    · exact h.limits
    · rw [RiskManager.onOrderFilled_limits, h.limits]
  · rw [settle_risk]
    split
    · exact h.dailyRealizedPnl
    · rw [RiskManager.onOrderFilled_dailyRealizedPnl, h.dailyRealizedPnl]
  · rw [settle_breaker]
    exact h.breaker

theorem processOrder (h : Undriven l capital om) (answer : String) (latency : Nat) :
    Undriven l capital (om.processOrder answer latency) := by
  unfold OrderManager.processOrder
  split
  · next pending rest _ =>
    split
    · have hrest : Undriven l capital { om with orderQueue := rest } :=
        ⟨h.limits, h.dailyRealizedPnl, h.breaker⟩
      exact hrest.settle pending answer latency
    · exact h
  · exact h

end OrderManager.Undriven

namespace IdleCounters

variable {l : Limits} {capital : ℚ} {p : OrderPath}

theorem fresh (l : Limits) (capital : ℚ) (start : TimePoint) :
    IdleCounters l capital (.fresh l (.new capital start)) :=
  ⟨rfl, rfl, rfl, start, rfl⟩

theorem undriven (h : IdleCounters l capital p) : p.manager.Undriven l capital :=
  ⟨h.limits, h.dailyRealizedPnl, h.breaker⟩

theorem step (h : IdleCounters l capital p) (d : RiskDecision) (x : PathInput) :
    IdleCounters l capital (p.step d x) := by
  cases x with
  | signal signal now balance timestamp =>
    have hframe := OrderManager.processSignal_frame d p.manager signal now balance timestamp
    obtain ⟨hlimits, hpnl, hbreaker⟩ := h.undriven.processSignal d signal now balance timestamp
    refine ⟨hlimits, hpnl, ?_, hbreaker⟩
    simpa only [OrderPath.step, hframe.risk] using h.todayTrades
  | process answer latency =>
    cases hnext : p.manager.nextOrder with
    | none => rwa [p.step_process_none _ answer latency hnext]
    | some order =>
      have hmanager : (p.step d (.process answer latency)).manager =
          p.manager.processOrder answer latency := by
        simp only [OrderPath.step, hnext]
      obtain ⟨hlimits, hpnl, hbreaker⟩ := h.undriven.processOrder answer latency
      rw [← hmanager] at hlimits hpnl hbreaker
      obtain ⟨hsent, hrisk, -⟩ := p.step_process_some d answer latency hnext
      refine ⟨hlimits, hpnl, ?_, hbreaker⟩
      rw [hrisk, hsent, accepted_concat]
      split
      · exact h.todayTrades
      · rw [RiskManager.onOrderFilled_todayTrades, h.todayTrades, List.length_append]
        rfl

theorem canSubmitOrder_eq_false (h : IdleCounters l capital p) (order : Order) (balance : ℚ) :
    p.manager.risk.canSubmitOrder order balance order.priceOrOne = false ↔
      l.maxDailyLoss < 0 ∨ l.maxDailyTrades ≤ (accepted p.sent).length ∨
        SizedOut p.manager.risk order balance := by
  rw [RiskManager.canSubmitOrder_eq_false h.dailyRealizedPnl, h.limits, h.todayTrades]

/-- With idle counters, a signal queues nothing exactly if it is blocked otherwise. -/
theorem queue_eq_iff (h : IdleCounters l capital p) (signal : Signal) (now : TimePoint)
    (balance : Nat → ℚ) (timestamp : UInt64) :
    (p.manager.processSignal RiskManager.canSubmitOrder signal now balance timestamp).orderQueue =
        p.manager.orderQueue ↔
      BlockedOtherwise l p signal balance := by
  obtain ⟨lastReset, hb⟩ := h.breaker
  rw [OrderManager.processSignal_queue_eq_iff, hb, (canTrade_new capital lastReset now).1]
  simp only [h.canSubmitOrder_eq_false, Bool.true_eq_false, false_or, BlockedOtherwise]
  by_cases hloss : l.maxDailyLoss < 0
  · simp [hloss]
  · by_cases htrades : l.maxDailyTrades ≤ (accepted p.sent).length
    · simp [htrades]
    · simp only [hloss, htrades, false_or]

end IdleCounters

/-- **The daily limits on the live path.** In every run, the limits stop trading if and only if every
signal that comes after a limit was reached is blocked by something that does not depend on the
losses or on the breaker's trade counter. -/
theorem stopsTrading_iff_blockedOtherwise (l : Limits) (capital : ℚ) (start : TimePoint)
    (xs : List PathInput) :
    StopsTrading l (.new capital start) xs ↔
      ∀ earlier between signal now balance timestamp,
        earlier ++ between ++ [.signal signal now balance timestamp] <+: xs →
        LimitReached l (.new capital start) (run (OrderPath.step RiskManager.canSubmitOrder)
          (.fresh l (.new capital start)) earlier) →
        BlockedOtherwise l (run (OrderPath.step RiskManager.canSubmitOrder)
          (.fresh l (.new capital start)) (earlier ++ between)) signal balance := by
  have hidle : ∀ ys, IdleCounters l capital (run (OrderPath.step RiskManager.canSubmitOrder)
      (.fresh l (.new capital start)) ys) :=
    run_invariant (fun _ x h => h.step _ x) (IdleCounters.fresh l capital start)
  unfold StopsTrading
  refine forall_congr' fun earlier => forall_congr' fun between => forall_congr' fun signal =>
    forall_congr' fun now => forall_congr' fun balance => forall_congr' fun timestamp =>
    imp_congr_right fun _ => imp_congr_right fun _ => ?_
  exact (hidle (earlier ++ between)).queue_eq_iff signal now balance timestamp

section SixLosses

def tenShares (isBuy : Bool) (price : ℚ) : Signal :=
  { symbol := "AAPL", orders := [{ symbol := "AAPL", price, quantity := 10, isBuy }], valid := true }

/-- Ten shares bought at 100 and sold at 1, both accepted. -/
def losingTrip : List PathInput :=
  [.signal (tenShares true 100) 0 (fun _ => 100000) 0, .process "buy" 0,
   .signal (tenShares false 1) 0 (fun _ => 100000) 0, .process "sell" 0]

/-- After six losing trips on a capital of 100000 the loss is 5940, past both loss limits, and the
next BUY is queued all the same. -/
theorem sixLosses_not_stopsTrading :
    ¬ StopsTrading {} (.new 100000 0)
      ((List.replicate 6 losingTrip).flatten ++
        [.signal (tenShares true 100) 0 (fun _ => 100000) 0]) := by
  intro h
  have hq := h (List.replicate 6 losingTrip).flatten [] (tenShares true 100) 0 (fun _ => 100000) 0
    (by simp) (Or.inl (by decide +kernel))
  exact absurd (congrArg List.length hq) (by decide +kernel)

end SixLosses

end TradingTerminal
