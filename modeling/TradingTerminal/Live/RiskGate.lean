import TradingTerminal.Live.LossGate
import Mathlib.Tactic.Linarith

/-!
# The risk gate on unchecked orders

Nothing upstream of the order manager looks at the sign of an order's price or quantity. `OneAtATime`
is the discipline under which the gate itself is judged: signals of one order, each placed and
accepted before the next signal. `GateSound` collects what a sound gate gives a run. All comparisons
of the check are one-sided and `priceOrOne` puts a positive price in the place of any other, so an
order with a price or a quantity that is not positive is queued whenever the other tests let it pass;
`gateSound_iff` says that this is all that can go wrong.
-/

namespace TradingTerminal

open Lib

/-- Signals carry one order and find the queue empty; the exchange accepts what it is sent. -/
def OneAtATime (p : OrderPath) : PathInput → Prop
  | .signal signal .. => p.manager.orderQueue = [] ∧ ∃ order, signal.orders = [order]
  | .process answer _ => answer ≠ ""

def Order.Positive (order : Order) : Prop := 0 < order.quantity ∧ 0 < order.price

/-- What a sound gate promises of a state of the order path. -/
structure SoundState (l : Limits) (p : OrderPath) : Prop where
  queued : ∀ pending ∈ p.manager.orderQueue, pending.order.Positive
  exposure_nonneg : 0 ≤ p.manager.risk.totalExposure
  exposure_le : p.manager.risk.totalExposure ≤ l.maxPortfolioExposure
  positions : ∀ symbol quantity, p.manager.risk.positions.lookup symbol = some quantity → 0 < quantity

/-- What a sound gate promises of a booking: a SELL increases no position, a BUY leaves no more than
the position limit of its symbol. -/
def SoundBooking (l : Limits) (p : OrderPath) : PathInput → Prop
  | .signal .. => True
  | .process answer latency => ∀ order, p.manager.nextOrder = some order →
    let after := (p.step RiskManager.canSubmitOrder (.process answer latency)).manager.risk
    (order.isBuy = false → ∀ symbol, after.position symbol ≤ p.manager.risk.position symbol) ∧
      (order.isBuy = true → after.position order.symbol * order.price ≤ l.maxPositionSize)

/-- The gate is sound on a run. -/
structure GateSound (l : Limits) (s : OrderPath) (xs : List PathInput) : Prop where
  states : Throughout (OrderPath.step RiskManager.canSubmitOrder) (SoundState l) s xs
  bookings : Guarded (OrderPath.step RiskManager.canSubmitOrder) (SoundBooking l) s xs

/-- An order of a signal that is not positive is stopped by something else. -/
def ImproperBlocked (l : Limits) (p : OrderPath) : PathInput → Prop
  | .signal signal _ balance _ =>
    (∀ order ∈ signal.orders, order.Positive) ∨ BlockedOtherwise l p signal balance
  | .process .. => True

/-! ## Bookings of positive orders -/

namespace RiskManager

variable {r : RiskManager} {order : Order} {price : ℚ}

/-- Positive stored positions stay positive when a positive quantity is booked. -/
theorem onOrderFilled_positions_pos (hq : 0 < order.quantity)
    (h : ∀ symbol quantity, r.positions.lookup symbol = some quantity → 0 < quantity) :
    ∀ symbol quantity, (r.onOrderFilled order price).positions.lookup symbol = some quantity →
      0 < quantity := by
  have hheld : 0 ≤ r.position order.symbol :=
    UMap.getD_of (le_refl (0 : ℚ)) (fun k v hv => (h k v hv).le) order.symbol
  intro symbol quantity
  unfold onOrderFilled
  cases hb : order.isBuy with
  | true =>
    simp only [if_true]
    by_cases hs : symbol = order.symbol
    · rw [hs, AList.lookup_insert]
      rintro ⟨⟩
      linarith
    · rw [AList.lookup_insert_ne hs]
      exact h symbol quantity
  | false =>
    simp only [Bool.false_eq_true, if_false]
    by_cases hs : symbol = order.symbol
    · split
      · rw [hs, AList.lookup_erase]
        rintro ⟨⟩
      · next hleft =>
        rw [hs, AList.lookup_insert]
        rintro ⟨⟩
        exact not_le.1 hleft
    · split
      · rw [AList.lookup_erase_ne hs, AList.lookup_insert_ne hs]
        exact h symbol quantity
      · rw [AList.lookup_insert_ne hs]
        exact h symbol quantity

/-- An approved order of a positive quantity keeps the exposure within its bounds. -/
theorem onOrderFilled_exposure_bounds (hq : 0 < order.quantity) (hprice : 0 < price)
    (hf : r.FitsBooks order price) (h0 : 0 ≤ r.totalExposure)
    (hle : r.totalExposure ≤ r.limits.maxPortfolioExposure) :
    0 ≤ (r.onOrderFilled order price).totalExposure ∧
      (r.onOrderFilled order price).totalExposure ≤ r.limits.maxPortfolioExposure := by
  have hnotional : 0 < order.quantity * price := mul_pos hq hprice
  cases hb : order.isBuy with
  | true =>
    rw [onOrderFilled_totalExposure_buy r price hb]
    exact ⟨by linarith, hf.exposure hb⟩
  | false =>
    rw [onOrderFilled_totalExposure_sell r price hb]
    exact ⟨le_max_left 0 _, max_le (by linarith) (by linarith)⟩

theorem onOrderFilled_position_sell_le (hq : 0 < order.quantity) (hf : r.FitsBooks order price)
    (hb : order.isBuy = false) (symbol : String) :
    (r.onOrderFilled order price).position symbol ≤ r.position symbol := by
  rw [onOrderFilled_position_signed r order price hf.held]
  split
  · rw [Order.signed, hb, if_neg (by simp)]
    linarith
  · rw [add_zero]

theorem onOrderFilled_position_buy (hf : r.FitsBooks order price) (hb : order.isBuy = true) :
    (r.onOrderFilled order price).position order.symbol * price ≤ r.limits.maxPositionSize := by
  rw [onOrderFilled_position_signed r order price hf.held, if_pos rfl, Order.signed, if_pos hb]
  exact hf.symbolCap hb

end RiskManager

/-! ## Runs -/

/-- The invariant: a sound state whose queue holds at most one order, approved against the books as
they are. -/
structure Gated (l : Limits) (capital : ℚ) (p : OrderPath) : Prop where
  idle : IdleCounters l capital p
  sound : SoundState l p
  queue : p.manager.orderQueue = [] ∨ ∃ pending, p.manager.orderQueue = [pending] ∧
    p.manager.risk.FitsBooks pending.order pending.order.priceOrOne

namespace Gated

variable {l : Limits} {capital : ℚ} {p : OrderPath}

theorem fresh (l : Limits) (capital : ℚ) (start : TimePoint) (hexp : 0 ≤ l.maxPortfolioExposure) :
    Gated l capital (.fresh l (.new capital start)) := by
  refine ⟨IdleCounters.fresh l capital start, ⟨?_, le_refl 0, hexp, ?_⟩, Or.inl rfl⟩
  · simp [OrderPath.fresh]
  · simp [OrderPath.fresh]

/-- A signal of one order leaves the queue as it is, or holding that order, approved. -/
theorem signal_queue (h : Gated l capital p) {signal : Signal} {order : Order}
    (hempty : p.manager.orderQueue = []) (horders : signal.orders = [order]) (now : TimePoint)
    (balance : Nat → ℚ) (timestamp : UInt64) :
    let after := p.manager.processSignal RiskManager.canSubmitOrder signal now balance timestamp
    (BlockedOtherwise l p signal balance ∧ after.orderQueue = []) ∨
      (¬ BlockedOtherwise l p signal balance ∧ ∃ pending, after.orderQueue = [pending] ∧
        (pending.order.Positive ↔ order.Positive) ∧
        p.manager.risk.FitsBooks pending.order pending.order.priceOrOne) := by
  intro after
  have hblocked := h.idle.queue_eq_iff signal now balance timestamp
  by_cases hb : BlockedOtherwise l p signal balance
  · exact Or.inl ⟨hb, (hblocked.2 hb).trans hempty⟩
  · refine Or.inr ⟨hb, ?_⟩
    have hvalid : signal.valid = true := by
      by_contra hv
      exact hb (Or.inl (Bool.eq_false_iff.2 hv))
    have hqueue := OrderManager.processSignal_queue_single RiskManager.canSubmitOrder p.manager hvalid
      horders now balance timestamp
    rw [hempty, List.nil_append] at hqueue
    split at hqueue
    · next hok =>
      refine ⟨_, hqueue, Iff.rfl, ?_⟩
      have happroved := (RiskManager.canSubmitOrder_iff _ _ _ _).1 (Bool.and_eq_true_iff.1 hok).2
      exact ⟨happroved.2.trades, happroved.2.symbolCap, happroved.2.exposure, happroved.2.held⟩
    · exact absurd (hblocked.1 (hqueue.trans hempty.symm)) hb

theorem signal (h : Gated l capital p) {signal : Signal} {now : TimePoint} {balance : Nat → ℚ}
    {timestamp : UInt64} (hone : OneAtATime p (.signal signal now balance timestamp))
    (hok : ImproperBlocked l p (.signal signal now balance timestamp)) :
    Gated l capital (p.step RiskManager.canSubmitOrder (.signal signal now balance timestamp)) := by
  obtain ⟨hempty, order, horders⟩ := hone
  have hframe := OrderManager.processSignal_frame RiskManager.canSubmitOrder p.manager signal now
    balance timestamp
  have hqueue := h.signal_queue hempty horders now balance timestamp
  refine ⟨h.idle.step _ _, ⟨?_, ?_, ?_, ?_⟩, ?_⟩
  · rcases hqueue with ⟨-, hq⟩ | ⟨hb, pending, hq, hpos, -⟩
    · simp only [OrderPath.step, hq, List.not_mem_nil, false_imp_iff, implies_true]
    · simp only [OrderPath.step, hq, List.mem_singleton, forall_eq]
      have hproper := hok.resolve_right hb
      rw [horders] at hproper
      exact hpos.2 (hproper order (List.mem_singleton_self order))
  · simpa only [OrderPath.step, hframe.risk] using h.sound.exposure_nonneg
  · simpa only [OrderPath.step, hframe.risk] using h.sound.exposure_le
  · simpa only [OrderPath.step, hframe.risk] using h.sound.positions
  · simp only [OrderPath.step, hframe.risk]
    rcases hqueue with ⟨-, hq⟩ | ⟨-, pending, hq, -, hfits⟩
    · exact Or.inl hq
    · exact Or.inr ⟨pending, hq, hfits⟩

/-- An order that is not positive and not blocked otherwise is queued. -/
theorem not_soundState_of_improper (h : Gated l capital p) {signal : Signal} {now : TimePoint}
    {balance : Nat → ℚ} {timestamp : UInt64}
    (hone : OneAtATime p (.signal signal now balance timestamp))
    (hbad : ¬ ImproperBlocked l p (.signal signal now balance timestamp)) :
    ¬ SoundState l (p.step RiskManager.canSubmitOrder (.signal signal now balance timestamp)) := by
  obtain ⟨hempty, order, horders⟩ := hone
  simp only [ImproperBlocked, not_or, horders, List.mem_singleton, forall_eq] at hbad
  rcases h.signal_queue hempty horders now balance timestamp with ⟨hb, -⟩ | ⟨-, pending, hq, hpos, -⟩
  · exact absurd hb hbad.2
  · intro hsound
    refine hbad.1 (hpos.1 (hsound.queued pending ?_))
    simp only [OrderPath.step, hq, List.mem_singleton]

/-- The order the processor takes is positive and fits the books it is booked into. -/
theorem nextOrder_fits (h : Gated l capital p) {order : Order} (hnext : p.manager.nextOrder = some order) :
    order.Positive ∧ p.manager.risk.FitsBooks order order.priceOrOne := by
  obtain ⟨-, pending, rest, hq, rfl⟩ := OrderManager.nextOrder_eq_some.1 hnext
  refine ⟨h.sound.queued pending (by rw [hq]; exact List.mem_cons_self), ?_⟩
  rcases h.queue with hempty | ⟨pending', hq', hfits⟩
  · rw [hempty] at hq
    cases hq
  · rw [hq'] at hq
    obtain ⟨rfl, -⟩ := List.cons.inj hq
    exact hfits

theorem process (h : Gated l capital p) {answer : String} (latency : Nat) (hanswer : answer ≠ "") :
    Gated l capital (p.step RiskManager.canSubmitOrder (.process answer latency)) ∧
      SoundBooking l p (.process answer latency) := by
  cases hnext : p.manager.nextOrder with
  | none =>
    rw [p.step_process_none _ answer latency hnext]
    refine ⟨h, ?_⟩
    intro order horder
    rw [hnext] at horder
    cases horder
  | some order =>
    obtain ⟨-, hrisk, -, -, pending, -, hqueue⟩ :=
      p.step_process_some RiskManager.canSubmitOrder answer latency hnext
    obtain ⟨hpos, hfits⟩ := h.nextOrder_fits hnext
    rw [if_neg hanswer] at hrisk
    have hexp := RiskManager.onOrderFilled_exposure_bounds hpos.1 order.priceOrOne_pos hfits
      h.sound.exposure_nonneg (h.idle.limits ▸ h.sound.exposure_le)
    have hrest : (p.step RiskManager.canSubmitOrder (.process answer latency)).manager.orderQueue = [] := by
      rcases h.queue with hempty | ⟨pending', hq', -⟩
      · rw [hempty] at hqueue
        cases hqueue
      · rw [hq'] at hqueue
        exact (List.cons.inj hqueue).2.symm
    refine ⟨⟨h.idle.step _ _, ⟨?_, ?_, ?_, ?_⟩, Or.inl hrest⟩, ?_⟩
    · simp [hrest]
    · rw [hrisk]
      exact hexp.1
    · rw [hrisk, ← h.idle.limits]
      exact hexp.2
    · rw [hrisk]
      exact RiskManager.onOrderFilled_positions_pos hpos.1 h.sound.positions
    · intro order' horder'
      obtain rfl : order = order' := Option.some.inj (hnext.symm.trans horder')
      refine ⟨fun hb symbol => ?_, fun hb => ?_⟩
      · rw [hrisk]
        exact RiskManager.onOrderFilled_position_sell_le hpos.1 hfits hb symbol
      · have hcap := RiskManager.onOrderFilled_position_buy hfits hb
        rw [h.idle.limits] at hcap
        rw [hrisk]
        simpa only [Order.priceOrOne_of_pos hpos.2] using hcap

end Gated

/-- **The gate on unchecked orders.** For all limits and every run that takes orders of any sign one
at a time, the gate is sound on the run if and only if the exposure limit is not negative and every
order that is not positive is blocked by something that does not look at its sign. -/
theorem gateSound_iff (l : Limits) (capital : ℚ) (start : TimePoint) (xs : List PathInput)
    (hone : Guarded (OrderPath.step RiskManager.canSubmitOrder) OneAtATime
      (.fresh l (.new capital start)) xs) :
    GateSound l (.fresh l (.new capital start)) xs ↔
      0 ≤ l.maxPortfolioExposure ∧
        Guarded (OrderPath.step RiskManager.canSubmitOrder) (ImproperBlocked l)
          (.fresh l (.new capital start)) xs := by
  have hkeep : ∀ p x, OneAtATime p x → Gated l capital p → ImproperBlocked l p x →
      Gated l capital (p.step RiskManager.canSubmitOrder x) := by
    intro p x hx h hok
    cases x with
    | signal signal now balance timestamp => exact h.signal hx hok
    | process answer latency => exact (h.process latency hx).1
  by_cases hexp : 0 ≤ l.maxPortfolioExposure
  · have hfresh := Gated.fresh l capital start hexp
    have hiff := throughout_iff_guarded_within (P := SoundState l) (I := Gated l capital)
      (G := ImproperBlocked l) (fun p h => h.sound) hkeep (A := OneAtATime) (by
        intro p x hx h hbad
        cases x with
        | signal signal now balance timestamp => exact h.not_soundState_of_improper hx hbad
        | process answer latency => exact absurd trivial hbad) hone hfresh
    constructor
    · intro h
      exact ⟨hexp, hiff.1 h.states⟩
    · rintro ⟨-, hguard⟩
      refine ⟨hiff.2 hguard, ?_⟩
      have hgated : Throughout (OrderPath.step RiskManager.canSubmitOrder) (Gated l capital)
          (.fresh l (.new capital start)) xs :=
        throughout_of_guarded (G := fun p x => OneAtATime p x ∧ ImproperBlocked l p x)
          (H := fun _ => True) (fun p x _ h hx => hkeep p x hx.1 h hx.2) (fun _ _ => trivial) hfresh
          fun ys x hys => ⟨hone ys x hys, hguard ys x hys⟩
      intro ys x hys
      cases x with
      | signal signal now balance timestamp => trivial
      | process answer latency =>
        exact ((hgated ys ((List.prefix_append ys _).trans hys)).process latency
          (hone ys _ hys)).2
  · constructor
    · intro h
      have hle := h.states.here.exposure_le
      exact absurd ((le_refl (0 : ℚ)).trans hle) hexp
    · rintro ⟨h, -⟩
      exact absurd h hexp

section NegativeSell

def sharesAt100 (isBuy : Bool) (quantity : ℚ) : Order :=
  { symbol := "AAPL", price := 100, quantity, isBuy }

def oneOrder (isBuy : Bool) (quantity : ℚ) : List PathInput :=
  [.signal { symbol := "AAPL", orders := [sharesAt100 isBuy quantity], valid := true } 0
    (fun _ => 100000) 0, .process "1" 0]

theorem oneOrder_oneAtATime (isBuy : Bool) (quantity : ℚ) :
    Guarded (OrderPath.step RiskManager.canSubmitOrder) OneAtATime
      (.fresh {} (.new 100000 0)) (oneOrder isBuy quantity) := by
  simp [oneOrder, OneAtATime, OrderPath.fresh]

/-- A SELL of minus five shares passes the short-sell guard, is queued, and booking it leaves a
position of five shares. -/
theorem negativeSell_not_gateSound :
    Guarded (OrderPath.step RiskManager.canSubmitOrder) OneAtATime
        (.fresh {} (.new 100000 0)) (oneOrder false (-5)) ∧
      ¬ GateSound {} (.fresh {} (.new 100000 0)) (oneOrder false (-5)) := by
  refine ⟨oneOrder_oneAtATime false (-5), fun h => ?_⟩
  have hbooking := h.bookings ((oneOrder false (-5)).take 1) (.process "1" 0) (List.prefix_refl _)
  have hnext : (run (OrderPath.step RiskManager.canSubmitOrder) (.fresh {} (.new 100000 0))
      ((oneOrder false (-5)).take 1)).manager.nextOrder =
        some { sharesAt100 false (-5) with clientOrderId := "client_1" } := by
    decide +kernel
  exact absurd ((hbooking _ hnext).1 rfl "AAPL") (by decide +kernel)

/-- A BUY without a price, for more shares than the order cap allows. -/
def unpriced : Signal where
  symbol := "AAPL"
  orders := [{ symbol := "AAPL", price := 0, quantity := 100000, isBuy := true }]
  valid := true

/-- A BUY of five shares at 100 meets the condition, and so does the unpriced one behind it, which is
stopped for its size. -/
theorem stoppedUnpriced_gateSound :
    GateSound {} (.fresh {} (.new 100000 0))
      (oneOrder true 5 ++ [.signal unpriced 1 (fun _ => 100000) 1]) := by
  have hone : Guarded (OrderPath.step RiskManager.canSubmitOrder) OneAtATime
      (.fresh {} (.new 100000 0)) (oneOrder true 5 ++ [.signal unpriced 1 (fun _ => 100000) 1]) := by
    refine guarded_cons.2 ⟨?_, guarded_cons.2 ⟨?_, guarded_cons.2 ⟨?_, guarded_nil⟩⟩⟩
    · exact ⟨rfl, _, rfl⟩
    · exact (by decide : "1" ≠ "")
    · exact ⟨by decide +kernel, _, rfl⟩
  refine (gateSound_iff {} 100000 0 _ hone).2 ⟨by norm_num, ?_⟩
  refine guarded_cons.2 ⟨Or.inl ?_, guarded_cons.2 ⟨trivial, guarded_cons.2 ⟨Or.inr ?_, guarded_nil⟩⟩⟩
  · simp [sharesAt100, Order.Positive]
  · refine .inr (.inr (.inr fun x hx => ?_))
    obtain rfl := List.mem_singleton.1 hx
    exact .inl (by decide +kernel)

end NegativeSell

end TradingTerminal
