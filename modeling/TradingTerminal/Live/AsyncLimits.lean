import TradingTerminal.Live.OrderPath

/-!
# The limits on the asynchronous order path

An order is checked when it is queued and booked when the processor has placed it. `WithinLimits`
collects what the limits promise of a state of the order path; `StillFits` is the part of the check
that reads the books, made again in the state in which the order is placed. Over all interleavings of
signals and processor passes the promise is kept throughout exactly when every order still fits at
its placement (`withinLimits_iff_stillFits`). An order placed in the state it was checked in does
(`stillFits_of_canSubmitOrder`).
-/

namespace TradingTerminal

open Lib

/-- What the risk limits promise of a state of the order path. -/
structure WithinLimits (l : Limits) (p : OrderPath) : Prop where
  exposure : p.manager.risk.totalExposure ≤ l.maxPortfolioExposure
  trades : p.manager.risk.todayTrades ≤ l.maxDailyTrades
  /-- no SELL was sent for more shares than were accepted as bought, net, before it -/
  sells : ∀ before order answer after, p.sent = before ++ (order, answer) :: after →
    order.isBuy = false → order.quantity ≤ netQuantity (accepted before) order.symbol

/-- The order about to be placed still passes the tests on the books: a SELL is covered by the
recorded position, and an order the exchange takes finds room in the trade counter and, for a BUY,
in the exposure. -/
structure StillFits (r : RiskManager) (order : Order) (answer : String) : Prop where
  held : order.isBuy = false → order.quantity ≤ r.position order.symbol
  trades : answer ≠ "" → r.todayTrades < r.limits.maxDailyTrades
  exposure : answer ≠ "" → order.isBuy = true →
    r.totalExposure + order.quantity * order.priceOrOne ≤ r.limits.maxPortfolioExposure

/-- An input finds its order still fitting; a signal places nothing. -/
def StillFitsAt (p : OrderPath) : PathInput → Prop
  | .signal .. => True
  | .process answer _ => ∀ order, p.manager.nextOrder = some order →
    StillFits p.manager.risk order answer

/-- An order that the check approves in the very state it is placed in still fits. -/
theorem stillFits_of_canSubmitOrder {r : RiskManager} {order : Order} {balance : ℚ}
    (h : r.canSubmitOrder order balance order.priceOrOne = true) (answer : String) :
    StillFits r order answer := by
  obtain ⟨-, hf⟩ := (RiskManager.canSubmitOrder_iff _ _ _ _).1 h
  exact ⟨hf.held, fun _ => hf.trades, fun _ => hf.exposure⟩

def PathInput.Positive : PathInput → Prop
  | .signal s .. => ∀ order ∈ s.orders, 0 < order.quantity ∧ 0 < order.price
  | .process .. => True

/-- The invariant of a run whose orders all fit at placement: the promise, with the books of the risk
manager equal to what the exchange accepted. -/
structure BooksTrack (l : Limits) (p : OrderPath) : Prop where
  within : WithinLimits l p
  limits : p.manager.risk.limits = l
  limit_nonneg : 0 ≤ l.maxPortfolioExposure
  position : ∀ symbol, p.manager.risk.position symbol = netQuantity (accepted p.sent) symbol
  positive : ∀ x ∈ p.manager.orderQueue, 0 < x.order.quantity ∧ 0 < x.order.price

namespace BooksTrack

variable {l : Limits} {p : OrderPath}

theorem fresh (breaker : CircuitBreaker) (hexp : 0 ≤ l.maxPortfolioExposure)
    (htr : 0 ≤ l.maxDailyTrades) : BooksTrack l (OrderPath.fresh l breaker) where
  within := ⟨hexp, htr, by simp [OrderPath.fresh]⟩
  limits := rfl
  limit_nonneg := hexp
  position _ := by simp [OrderPath.fresh, RiskManager.position]
  positive := by simp [OrderPath.fresh]

theorem signal (h : BooksTrack l p) (d : RiskDecision) {signal : Signal} (now : TimePoint)
    (balance : Nat → ℚ) (timestamp : UInt64)
    (hs : (PathInput.signal signal now balance timestamp).Positive) :
    BooksTrack l (p.step d (.signal signal now balance timestamp)) := by
  have hf := OrderManager.processSignal_frame d p.manager signal now balance timestamp
  refine ⟨⟨?_, ?_, h.within.sells⟩, ?_, h.limit_nonneg, fun symbol => ?_, ?_⟩
  · simpa only [OrderPath.step, hf.risk] using h.within.exposure
  · simpa only [OrderPath.step, hf.risk] using h.within.trades
  · simpa only [OrderPath.step, hf.risk] using h.limits
  · simpa only [OrderPath.step, hf.risk] using h.position symbol
  · exact OrderManager.processSignal_forall_queue (p := fun o => 0 < o.quantity ∧ 0 < o.price)
      (fun _ _ ho => ho) hs h.positive

/-- The record after a pass is within the limits on sells exactly if it was and the order just sent
is covered. -/
theorem sells_concat {sent : List (Order × String)} {order : Order} (answer : String)
    (hsent : ∀ before o a after, sent = before ++ (o, a) :: after → o.isBuy = false →
      o.quantity ≤ netQuantity (accepted before) o.symbol)
    (held : order.isBuy = false → order.quantity ≤ netQuantity (accepted sent) order.symbol) :
    ∀ before o a after, sent ++ [(order, answer)] = before ++ (o, a) :: after → o.isBuy = false →
      o.quantity ≤ netQuantity (accepted before) o.symbol := by
  intro before o a after heq hsell
  rcases List.eq_nil_or_concat' after with rfl | ⟨after', x, rfl⟩
  · have heq := List.append_inj' heq rfl
    obtain ⟨rfl, h2⟩ := heq
    simp only [List.cons.injEq, Prod.mk.injEq, and_true] at h2
    obtain ⟨rfl, -⟩ := h2
    exact held hsell
  · rw [← List.cons_append, ← List.append_assoc] at heq
    exact hsent before o a after' (List.append_inj' heq rfl).1 hsell

theorem process (h : BooksTrack l p) (d : RiskDecision) {order : Order} {answer : String}
    (latency : Nat) (hnext : p.manager.nextOrder = some order)
    (hfits : StillFits p.manager.risk order answer) :
    BooksTrack l (p.step d (.process answer latency)) := by
  obtain ⟨hsent, hrisk, -, -, pending, rfl, hqueue⟩ := p.step_process_some d answer latency hnext
  generalize p.step d (.process answer latency) = p' at hsent hrisk hqueue ⊢
  have hpos := h.positive pending (by simp [hqueue])
  have hnotional : 0 < pending.order.quantity * pending.order.priceOrOne :=
    mul_pos hpos.1 pending.order.priceOrOne_pos
  have hsells := sells_concat answer h.within.sells
    (fun hb => h.position _ ▸ hfits.held hb)
  have hrest : ∀ x ∈ p'.manager.orderQueue, 0 < x.order.quantity ∧ 0 < x.order.price :=
    fun x hx => h.positive x (by simp [hqueue, hx])
  by_cases ha : answer = ""
  · rw [if_pos ha] at hrisk
    refine ⟨⟨?_, ?_, hsent ▸ hsells⟩, ?_, h.limit_nonneg, fun symbol => ?_, hrest⟩
    · exact hrisk ▸ h.within.exposure
    · exact hrisk ▸ h.within.trades
    · exact hrisk ▸ h.limits
    · rw [hrisk, hsent, accepted_concat, if_pos ha, h.position]
  · rw [if_neg ha] at hrisk
    refine ⟨⟨?_, ?_, hsent ▸ hsells⟩, ?_, h.limit_nonneg, fun symbol => ?_, hrest⟩
    · rw [hrisk]
      cases hb : pending.order.isBuy with
      | true =>
        rw [RiskManager.onOrderFilled_totalExposure_buy _ _ hb]
        exact h.limits ▸ hfits.exposure ha hb
      | false =>
        -- a SELL only lowers the exposure, down to zero at least
        rw [RiskManager.onOrderFilled_totalExposure_sell _ _ hb]
        have := h.within.exposure
        exact max_le h.limit_nonneg (by linarith)
    · rw [hrisk, RiskManager.onOrderFilled_todayTrades]
      have := hfits.trades ha
      rw [h.limits] at this
      omega
    · rw [hrisk, RiskManager.onOrderFilled_limits, h.limits]
    · rw [hrisk, hsent, accepted_concat, if_neg ha, netQuantity_concat,
        RiskManager.onOrderFilled_position_signed _ _ _ hfits.held, h.position]

/-- A pass that places an order that no longer fits leaves the promise. -/
theorem not_within_of_unfit (h : BooksTrack l p) (d : RiskDecision) {order : Order} {answer : String}
    (latency : Nat) (hnext : p.manager.nextOrder = some order)
    (hunfit : ¬ StillFits p.manager.risk order answer) :
    ¬ WithinLimits l (p.step d (.process answer latency)) := by
  obtain ⟨hsent, hrisk, -⟩ := p.step_process_some d answer latency hnext
  intro hw
  refine hunfit ⟨fun hb => ?_, fun ha => ?_, fun ha hb => ?_⟩
  · exact h.position _ ▸ hw.sells p.sent order answer [] hsent hb
  · have := hw.trades
    rw [hrisk, if_neg ha, RiskManager.onOrderFilled_todayTrades] at this
    rw [h.limits]
    omega
  · have := hw.exposure
    rw [hrisk, if_neg ha, RiskManager.onOrderFilled_totalExposure_buy _ _ hb] at this
    rwa [h.limits]

end BooksTrack

/-- **The limits under interleaving.** For every set of limits and every interleaving of signals with
positive orders and processor passes from an empty queue, the promise of the limits holds in every
state of the run if and only if the two caps are not negative and every order still fits the books
in the state in which it is placed. -/
theorem withinLimits_iff_stillFits (l : Limits) (breaker : CircuitBreaker) (xs : List PathInput)
    (hpos : ∀ x ∈ xs, x.Positive) :
    Throughout (OrderPath.step RiskManager.canSubmitOrder) (WithinLimits l)
        (OrderPath.fresh l breaker) xs ↔
      0 ≤ l.maxPortfolioExposure ∧ 0 ≤ l.maxDailyTrades ∧
        Guarded (OrderPath.step RiskManager.canSubmitOrder) StillFitsAt
          (OrderPath.fresh l breaker) xs := by
  by_cases hcaps : 0 ≤ l.maxPortfolioExposure ∧ 0 ≤ l.maxDailyTrades
  · simp only [hcaps, true_and]
    refine throughout_iff_guarded (I := BooksTrack l) (fun p h => h.within) ?_ ?_ hpos
      (BooksTrack.fresh breaker hcaps.1 hcaps.2)
    · intro p x hx h hG
      cases x with
      | signal signal now balance timestamp => exact h.signal _ now balance timestamp hx
      | process answer latency =>
        cases hnext : p.manager.nextOrder with
        | none => rwa [p.step_process_none _ answer latency hnext]
        | some order => exact h.process _ latency hnext (hG order hnext)
    · intro p x hx h hG
      cases x with
      | signal signal now balance timestamp => exact absurd trivial hG
      | process answer latency =>
        simp only [StillFitsAt, not_forall] at hG
        obtain ⟨order, hnext, hunfit⟩ := hG
        exact h.not_within_of_unfit _ latency hnext hunfit
  · constructor
    · intro h
      exact absurd ⟨h.here.exposure, h.here.trades⟩ hcaps
    · rintro ⟨h1, h2, -⟩
      exact absurd ⟨h1, h2⟩ hcaps

section Oversell

def fiveShares (isBuy : Bool) : Order := { symbol := "AAPL", price := 100, quantity := 5, isBuy }

def fiveSharesSignal (isBuy : Bool) : Signal :=
  { symbol := "AAPL", orders := [fiveShares isBuy], valid := true }

/-- A BUY of five shares is placed and accepted, then two SELLs of the five shares are approved
against the same position and both are placed. -/
def oversellRun : List PathInput :=
  [.signal (fiveSharesSignal true) 0 (fun _ => 100000) 0, .process "1" 0,
   .signal (fiveSharesSignal false) 0 (fun _ => 100000) 0,
   .signal (fiveSharesSignal false) 0 (fun _ => 100000) 0, .process "2" 0, .process "3" 0]

theorem oversellRun_positive : ∀ x ∈ oversellRun, x.Positive := by
  simp [oversellRun, fiveSharesSignal, fiveShares, PathInput.Positive]

/-- Under the default limits the second SELL of `oversellRun` is sent with nothing left to sell. -/
theorem oversellRun_not_withinLimits :
    (∀ x ∈ oversellRun, x.Positive) ∧
      ¬ Throughout (OrderPath.step RiskManager.canSubmitOrder) (WithinLimits {})
        (OrderPath.fresh {} (.new 100000 0)) oversellRun := by
  refine ⟨oversellRun_positive, fun h => ?_⟩
  have hsent : (run (OrderPath.step RiskManager.canSubmitOrder)
      (OrderPath.fresh {} (.new 100000 0)) oversellRun).sent =
      [({ fiveShares true with clientOrderId := "client_1" }, "1"),
        ({ fiveShares false with clientOrderId := "client_2" }, "2")] ++
        ({ fiveShares false with clientOrderId := "client_3" }, "3") :: [] := by
    decide +kernel
  exact absurd (h.last.sells _ _ _ _ hsent rfl) (by decide +kernel)

theorem buyRun_withinLimits :
    Throughout (OrderPath.step RiskManager.canSubmitOrder) (WithinLimits {})
      (OrderPath.fresh {} (.new 100000 0)) (oversellRun.take 2) := by
  refine (withinLimits_iff_stillFits {} (.new 100000 0) (oversellRun.take 2)
    fun x hx => oversellRun_positive x (List.mem_of_mem_take hx)).2
    ⟨by decide +kernel, by decide +kernel, guarded_cons.2 ⟨trivial, guarded_cons.2 ⟨?_, guarded_nil⟩⟩⟩
  intro order hnext
  have hfirst : (OrderPath.step RiskManager.canSubmitOrder (OrderPath.fresh {} (.new 100000 0))
      (.signal (fiveSharesSignal true) 0 (fun _ => 100000) 0)).manager.nextOrder =
      some { fiveShares true with clientOrderId := "client_1" } := by
    decide +kernel
  obtain rfl := Option.some.inj (hfirst.symm.trans hnext)
  exact ⟨by decide, fun _ => by decide +kernel, fun _ _ => by decide +kernel⟩

end Oversell

end TradingTerminal
