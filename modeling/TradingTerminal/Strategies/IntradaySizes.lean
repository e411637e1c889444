import TradingTerminal.Risk.KellyFraction

/-!
# What sizes the orders of the enhanced strategy

The Kelly fraction is never below 1%, and half a percent of the capital over a stop at 2% of the
price already buys a quarter of the capital. So the cap of `calculate_position_size` decides it
alone (`calculatePositionSize_eq`), and the returns that `update_pnl` records decide nothing: as far
as the orders go, it only tells the circuit breaker of a trade (`updatePnl_only_recordsTrade`).
Every order is of a positive quantity, for no more than a quarter of the capital (`orders_sized`).
-/

namespace TradingTerminal

open Lib

/-! ## What the orders do not depend on -/

/-- The positions that a fill leaves do not depend on the profit. -/
theorem Strategy.bookFill_positions_unreported (s : Strategy) (order : Order) :
    (s.bookFill order).positions = ({ s with pnl := 0 }.bookFill order).positions := by
  unfold bookFill updatePosition
  dsimp only
  cases addToFirst order.symbol order.signed order.price s.positions with
  | some positions => rfl
  | none =>
    dsimp only
    split <;> rfl

namespace EnhancedIntradayStrategy

/-- A strategy without its profit and without the returns it recorded. -/
def unreported (s : EnhancedIntradayStrategy) : EnhancedIntradayStrategy :=
  { s with pnl := 0, kelly := {} }

section Unreported

variable (s : EnhancedIntradayStrategy)

@[simp] theorem unreported_priceHistory : s.unreported.priceHistory = s.priceHistory := rfl

@[simp] theorem unreported_regime : s.unreported.regime = s.regime := rfl

@[simp] theorem unreported_inPosition : s.unreported.inPosition = s.inPosition := rfl

@[simp] theorem unreported_pendingExit : s.unreported.pendingExit = s.pendingExit := rfl

@[simp] theorem unreported_shouldExit (price : ℚ) :
    s.unreported.shouldExit price = s.shouldExit price := rfl

@[simp] theorem unreported_entryReason (price : ℚ) :
    s.unreported.entryReason price = s.entryReason price := rfl

@[simp] theorem unreported_calculateRsi : s.unreported.calculateRsi = s.calculateRsi := rfl

end Unreported

variable {s : EnhancedIntradayStrategy}

theorem recordTick_unreported (s : EnhancedIntradayStrategy) (tick : Tick) :
    s.unreported.recordTick tick = (s.recordTick tick).unreported := by
  unfold recordTick unreported
  rfl

theorem finalSize_unreported (h : 0 ≤ s.capital) (price : ℚ) :
    s.unreported.finalSize price = s.finalSize price := by
  have hkelly := KellyPositionSizer.calculatePositionSize_eq s.kelly h price
  have hunreported := KellyPositionSizer.calculatePositionSize_eq {} h price
  change min (s.positionSize * s.regime.getPositionMultiplier)
    (KellyPositionSizer.calculatePositionSize {} s.capital price) = _
  rw [hunreported, ← hkelly]
  rfl

/-- The signal of a tick and what it leaves are the same without the profit and the returns. -/
theorem generateSignal_unreported (h : 0 ≤ s.capital) (tick : Tick) (canTrade : Bool) :
    (s.unreported.generateSignal tick canTrade).1 = (s.generateSignal tick canTrade).1 ∧
      (s.unreported.generateSignal tick canTrade).2.unreported =
        (s.generateSignal tick canTrade).2.unreported := by
  have hsize : (s.recordTick tick).unreported.finalSize tick.price =
      (s.recordTick tick).finalSize tick.price :=
    finalSize_unreported (s := s.recordTick tick) h tick.price
  unfold generateSignal
  rw [recordTick_unreported]
  simp only [hsize, unreported_priceHistory, unreported_regime, unreported_inPosition,
    unreported_pendingExit, unreported_shouldExit, unreported_entryReason, unreported_calculateRsi]
  generalize s.recordTick tick = r
  split
  · exact ⟨rfl, rfl⟩
  · split
    · exact ⟨rfl, rfl⟩
    · split
      · exact ⟨rfl, rfl⟩
      · split
        · split <;> exact ⟨rfl, rfl⟩
        · split
          · split <;> exact ⟨rfl, rfl⟩
          · exact ⟨rfl, rfl⟩

/-- Strategies that differ in their profit and the returns they recorded only. -/
def SameOrders (s s' : EnhancedIntradayStrategy) : Prop := s.unreported = s'.unreported

variable {s' : EnhancedIntradayStrategy}

theorem SameOrders.capital (h : SameOrders s s') : s.capital = s'.capital := by
  have hsame : s.unreported = s'.unreported := h
  have hcapital := congrArg EnhancedIntradayStrategy.capital hsame
  exact hcapital

theorem SameOrders.generateSignal (h : SameOrders s s') (hcapital : 0 ≤ s.capital) (tick : Tick)
    (canTrade : Bool) :
    (s.generateSignal tick canTrade).1 = (s'.generateSignal tick canTrade).1 ∧
      SameOrders (s.generateSignal tick canTrade).2 (s'.generateSignal tick canTrade).2 := by
  obtain ⟨hsignal, hleft⟩ := generateSignal_unreported hcapital tick canTrade
  obtain ⟨hsignal', hleft'⟩ := generateSignal_unreported (h.capital ▸ hcapital) tick canTrade
  have hsame : s.unreported = s'.unreported := h
  rw [← hsame] at hsignal' hleft'
  exact ⟨hsignal.symm.trans hsignal', hleft.symm.trans hleft'⟩

theorem onOrderFilled_unreported (s : EnhancedIntradayStrategy) (order : Order) :
    (s.unreported.onOrderFilled order).unreported = (s.onOrderFilled order).unreported := by
  have hpositions := s.toStrategy.bookFill_positions_unreported order
  unfold onOrderFilled
  dsimp only
  split <;>
  · unfold unreported
    dsimp only
    rw [hpositions]

theorem SameOrders.onOrderFilled (h : SameOrders s s') (order : Order) :
    SameOrders (s.onOrderFilled order) (s'.onOrderFilled order) := by
  have hsame : s.unreported = s'.unreported := h
  have hleft := s.onOrderFilled_unreported order
  rw [hsame, onOrderFilled_unreported] at hleft
  exact hleft.symm

theorem SameOrders.onOrderRejected (h : SameOrders s s') (order : Order) :
    SameOrders (s.onOrderRejected order) (s'.onOrderRejected order) := by
  have hsame : s.unreported = s'.unreported := h
  have hrejected : ∀ t : EnhancedIntradayStrategy,
      (t.onOrderRejected order).unreported = t.unreported.onOrderRejected order := by
    intro t
    unfold EnhancedIntradayStrategy.onOrderRejected
    split <;> rfl
  change (s.onOrderRejected order).unreported = (s'.onOrderRejected order).unreported
  rw [hrejected, hrejected, hsame]

theorem SameOrders.setCapital (h : SameOrders s s') (capital : ℚ) :
    SameOrders (s.setCapital capital) (s'.setCapital capital) :=
  congrArg (fun t : EnhancedIntradayStrategy => t.setCapital capital) h

/-- A report of a trade changes nothing that the orders depend on. -/
theorem sameOrders_updatePnl (s : EnhancedIntradayStrategy) (breaker : CircuitBreaker)
    (pnlAmount : ℚ) : SameOrders (s.updatePnl breaker pnlAmount).1 s := rfl

/-! ## One order -/

/-- A tick changes neither the configured size nor the capital. -/
theorem generateSignal_config (s : EnhancedIntradayStrategy) (tick : Tick) (canTrade : Bool) :
    (s.generateSignal tick canTrade).2.positionSize = s.positionSize ∧
      (s.generateSignal tick canTrade).2.capital = s.capital := by
  have hrecorded : (s.recordTick tick).positionSize = s.positionSize ∧
      (s.recordTick tick).capital = s.capital := ⟨rfl, rfl⟩
  unfold generateSignal
  dsimp only
  generalize s.recordTick tick = r at hrecorded ⊢
  split
  · exact hrecorded
  · split
    · exact hrecorded
    · split
      · exact hrecorded
      · split
        · split <;> exact hrecorded
        · split
          · split <;> exact hrecorded
          · exact hrecorded

/-- In a crash nothing is ordered. -/
theorem generateSignal_of_crash {tick : Tick} {canTrade : Bool}
    (hcrash : (s.recordTick tick).regime.getPositionMultiplier = 0) :
    (s.generateSignal tick canTrade).1.orders = [] := by
  unfold generateSignal
  dsimp only
  rw [if_pos hcrash]
  split
  · rfl
  · split <;> rfl

theorem quantity_of_mem {tick : Tick} {canTrade : Bool} {order : Order}
    (h : order ∈ (s.generateSignal tick canTrade).1.orders) : order.quantity = s.orderSize tick := by
  rcases s.generateSignal_cases tick canTrade with
    ⟨-, horders, -⟩ | ⟨-, -, horders⟩ | ⟨-, -, horders, -⟩
  · rw [horders] at h
    cases h
  · rw [horders, List.mem_singleton] at h
    rw [h]
    rfl
  · rw [horders, List.mem_singleton] at h
    rw [h]
    rfl

/-- An order of a tick is of a positive size, no more than one and a half times the configured size
and than a quarter of the capital. -/
theorem orderSize_bounds (hsize : 0 < s.positionSize) (hcapital : 0 < s.capital) {tick : Tick}
    (hprice : 0 < tick.price) (hcalm : (s.recordTick tick).regime.getPositionMultiplier ≠ 0) :
    0 < s.orderSize tick ∧ s.orderSize tick ≤ 3 / 2 * s.positionSize ∧
      4 * (s.orderSize tick * tick.price) ≤ s.capital := by
  have horder : s.orderSize tick =
      min (s.positionSize * (s.recordTick tick).regime.getPositionMultiplier)
        (s.capital / (4 * tick.price)) := by
    have hkelly := s.kelly.calculatePositionSize_eq hcapital.le tick.price
    rw [if_neg (not_le.2 hprice)] at hkelly
    rw [← hkelly]
    rfl
  have hmultiplier : 0 < (s.recordTick tick).regime.getPositionMultiplier ∧
      (s.recordTick tick).regime.getPositionMultiplier ≤ 3 / 2 := by
    revert hcalm
    unfold RegimeDetector.getPositionMultiplier
    cases (s.recordTick tick).regime.detect <;> norm_num
  have hquarter : 0 < s.capital / (4 * tick.price) := by positivity
  rw [horder]
  refine ⟨lt_min (mul_pos hsize hmultiplier.1) hquarter, ?_, ?_⟩
  · calc min _ _ ≤ s.positionSize * (s.recordTick tick).regime.getPositionMultiplier :=
          min_le_left _ _
      _ ≤ s.positionSize * (3 / 2) := mul_le_mul_of_nonneg_left hmultiplier.2 hsize.le
      _ = 3 / 2 * s.positionSize := mul_comm _ _
  · have hle : min (s.positionSize * (s.recordTick tick).regime.getPositionMultiplier)
        (s.capital / (4 * tick.price)) ≤ s.capital / (4 * tick.price) := min_le_right _ _
    rw [le_div_iff₀ (by linarith)] at hle
    linarith

end EnhancedIntradayStrategy

/-! ## Runs -/

/-- What happens to a strategy and to the breaker it shares with the order manager. -/
inductive IntradayInput where
  | tick (tick : Tick) (now : TimePoint)
  | filled (order : Order)
  | rejected (order : Order)
  | updatePnl (pnlAmount : ℚ)
  | setCapital (capital : ℚ)
  | canTrade (now : TimePoint)
  | recordTrade (pnlAmount : ℚ)

/-- The signal of a tick, with the capital at the time. -/
structure Emission where
  tick : Tick
  capital : ℚ
  signal : Signal

structure IntradayDesk where
  strategy : EnhancedIntradayStrategy
  breaker : CircuitBreaker
  emissions : List Emission := []

namespace IntradayDesk

def step (d : IntradayDesk) : IntradayInput → IntradayDesk
  | .tick tick now =>
    let (canTrade, breaker) := d.breaker.canTrade now
    let (signal, strategy) := d.strategy.generateSignal tick canTrade
    { strategy, breaker
      emissions := d.emissions ++ [{ tick, capital := d.strategy.capital, signal }] }
  | .filled order => { d with strategy := d.strategy.onOrderFilled order }
  | .rejected order => { d with strategy := d.strategy.onOrderRejected order }
  | .updatePnl pnlAmount =>
    let (strategy, breaker) := d.strategy.updatePnl d.breaker pnlAmount
    { d with strategy, breaker }
  | .setCapital capital => { d with strategy := d.strategy.setCapital capital }
  | .canTrade now => { d with breaker := (d.breaker.canTrade now).2 }
  | .recordTrade pnlAmount => { d with breaker := d.breaker.recordTrade pnlAmount }

/-- A strategy and a breaker before the first tick. -/
def start (size : ℚ) (breaker : CircuitBreaker) : IntradayDesk := { strategy := .new size, breaker }

/-- A report of a trade that goes to the breaker only. -/
def toBreaker : IntradayInput → IntradayInput
  | .updatePnl pnlAmount => .recordTrade pnlAmount
  | x => x

/-- Desks that have emitted the same and will. -/
structure Alike (d d' : IntradayDesk) : Prop where
  strategy : d.strategy.SameOrders d'.strategy
  breaker : d.breaker = d'.breaker
  emissions : d.emissions = d'.emissions
  funded : 0 ≤ d.strategy.capital

variable {d d' : IntradayDesk}

theorem onOrderFilled_config (s : EnhancedIntradayStrategy) (order : Order) :
    (s.onOrderFilled order).capital = s.capital ∧
      (s.onOrderFilled order).positionSize = s.positionSize := by
  unfold EnhancedIntradayStrategy.onOrderFilled
  dsimp only
  split <;> exact ⟨rfl, rfl⟩

theorem onOrderRejected_config (s : EnhancedIntradayStrategy) (order : Order) :
    (s.onOrderRejected order).capital = s.capital ∧
      (s.onOrderRejected order).positionSize = s.positionSize := by
  unfold EnhancedIntradayStrategy.onOrderRejected
  split <;> exact ⟨rfl, rfl⟩

theorem Alike.step (h : Alike d d') {x : IntradayInput}
    (hx : ∀ capital, x = .setCapital capital → 0 ≤ capital) :
    Alike (d.step x) (d'.step (toBreaker x)) := by
  obtain ⟨hstrategy, hbreaker, hemissions, hfunded⟩ := h
  cases x with
  | tick tick now =>
    obtain ⟨hsignal, hleft⟩ :=
      hstrategy.generateSignal hfunded tick (d.breaker.canTrade now).1
    simp only [IntradayDesk.step, toBreaker]
    rw [← hbreaker]
    refine ⟨hleft, rfl, ?_, ?_⟩
    · rw [hemissions, hsignal, hstrategy.capital]
    · rw [(d.strategy.generateSignal_config tick _).2]
      exact hfunded
  | filled order =>
    refine ⟨hstrategy.onOrderFilled order, hbreaker, hemissions, ?_⟩
    exact (onOrderFilled_config d.strategy order).1 ▸ hfunded
  | rejected order =>
    refine ⟨hstrategy.onOrderRejected order, hbreaker, hemissions, ?_⟩
    exact (onOrderRejected_config d.strategy order).1 ▸ hfunded
  | updatePnl pnlAmount =>
    exact ⟨(d.strategy.sameOrders_updatePnl d.breaker pnlAmount).trans hstrategy,
      congrArg (fun b => b.recordTrade pnlAmount) hbreaker, hemissions, hfunded⟩
  | setCapital capital => exact ⟨hstrategy.setCapital capital, hbreaker, hemissions, hx capital rfl⟩
  | canTrade now =>
    exact ⟨hstrategy, congrArg (fun b => (b.canTrade now).2) hbreaker, hemissions, hfunded⟩
  | recordTrade pnlAmount =>
    exact ⟨hstrategy, congrArg (fun b => b.recordTrade pnlAmount) hbreaker, hemissions, hfunded⟩

theorem alike_run {inputs : List IntradayInput} (h : Alike d d')
    (hinputs : ∀ capital, .setCapital capital ∈ inputs → 0 ≤ capital) :
    Alike (run step d inputs) (run step d' (inputs.map toBreaker)) := by
  induction inputs generalizing d d' with
  | nil => exact h
  | cons x inputs ih =>
    rw [run_cons, List.map_cons, run_cons]
    apply ih
    · exact h.step fun capital hx => hinputs capital (hx ▸ List.mem_cons_self)
    · exact fun capital hmem => hinputs capital (List.mem_cons_of_mem x hmem)

/-- **The returns decide nothing.** In every run that sets no negative capital, with any fills,
rejections and calls of the breaker, every tick has the signal it has when the trades are reported
to the breaker alone. -/
theorem updatePnl_only_recordsTrade (size : ℚ) (breaker : CircuitBreaker)
    {inputs : List IntradayInput}
    (hinputs : ∀ capital, .setCapital capital ∈ inputs → 0 ≤ capital) :
    (run step (start size breaker) inputs).emissions =
      (run step (start size breaker) (inputs.map toBreaker)).emissions := by
  have hstart : Alike (start size breaker) (start size breaker) :=
    ⟨rfl, rfl, rfl, show (0 : ℚ) ≤ 100000 by norm_num⟩
  exact (alike_run hstart hinputs).emissions

/-- A capital or a price that is positive. -/
def Positive : IntradayInput → Prop
  | .tick tick _ => 0 < tick.price
  | .setCapital capital => 0 < capital
  | _ => True

instance : DecidablePred Positive
  | .tick tick _ => inferInstanceAs (Decidable (0 < tick.price))
  | .setCapital capital => inferInstanceAs (Decidable (0 < capital))
  | .filled _ | .rejected _ | .updatePnl _ | .canTrade _ | .recordTrade _ => .isTrue trivial

/-- Every order of an emission is of a positive quantity within one and a half times the configured
size, for no more than a quarter of the capital. -/
def BoundedEmission (size : ℚ) (e : Emission) : Prop :=
  ∀ order ∈ e.signal.orders, 0 < order.quantity ∧ order.quantity ≤ 3 / 2 * size ∧
    4 * (order.quantity * e.tick.price) ≤ e.capital

/-- What bounds the next order, and the bounds of those so far. -/
structure Bounded (size : ℚ) (d : IntradayDesk) : Prop where
  config : d.strategy.positionSize = size
  funded : 0 < d.strategy.capital
  emissions : ∀ e ∈ d.emissions, BoundedEmission size e

variable {size : ℚ}

theorem Bounded.emission (h : Bounded size d) (hsize : 0 < size) {tick : Tick}
    (hprice : 0 < tick.price) (canTrade : Bool) :
    BoundedEmission size
      ⟨tick, d.strategy.capital, (d.strategy.generateSignal tick canTrade).1⟩ := by
  intro order horder
  have hcalm : (d.strategy.recordTick tick).regime.getPositionMultiplier ≠ 0 := by
    intro hcrash
    have hnone : (d.strategy.generateSignal tick canTrade).1.orders = [] :=
      EnhancedIntradayStrategy.generateSignal_of_crash hcrash
    simp only [hnone, List.not_mem_nil] at horder
  rw [EnhancedIntradayStrategy.quantity_of_mem horder, ← h.config]
  exact EnhancedIntradayStrategy.orderSize_bounds (h.config ▸ hsize) h.funded hprice hcalm

theorem Bounded.step (h : Bounded size d) (hsize : 0 < size) {x : IntradayInput}
    (hx : Positive x) : Bounded size (d.step x) := by
  cases x with
  | tick tick now =>
    obtain ⟨hconfig, hcapital⟩ :=
      d.strategy.generateSignal_config tick (d.breaker.canTrade now).1
    refine ⟨hconfig.trans h.config, hcapital ▸ h.funded, ?_⟩
    intro e he
    rcases List.mem_append.1 he with hearlier | hlast
    · exact h.emissions e hearlier
    · rw [List.mem_singleton.1 hlast]
      exact h.emission hsize hx _
  | filled order =>
    obtain ⟨hcapital, hsame⟩ := onOrderFilled_config d.strategy order
    exact ⟨hsame.trans h.config, hcapital ▸ h.funded, h.emissions⟩
  | rejected order =>
    obtain ⟨hcapital, hsame⟩ := onOrderRejected_config d.strategy order
    exact ⟨hsame.trans h.config, hcapital ▸ h.funded, h.emissions⟩
  | updatePnl pnlAmount => exact ⟨h.config, h.funded, h.emissions⟩
  | setCapital capital => exact ⟨h.config, hx, h.emissions⟩
  | canTrade now => exact ⟨h.config, h.funded, h.emissions⟩
  | recordTrade pnlAmount => exact ⟨h.config, h.funded, h.emissions⟩

/-- **Sizes.** In every run with positive prices and capitals, whatever was reported, filled or
rejected, each order is of a positive quantity, at most one and a half times the configured size,
and costs at the price of its tick no more than a quarter of the capital set at the time. -/
theorem orders_sized {size : ℚ} (hsize : 0 < size) (breaker : CircuitBreaker)
    {inputs : List IntradayInput} (hinputs : ∀ x ∈ inputs, Positive x) :
    ∀ e ∈ (run step (start size breaker) inputs).emissions, ∀ order ∈ e.signal.orders,
      0 < order.quantity ∧ order.quantity ≤ 3 / 2 * size ∧
        4 * (order.quantity * e.tick.price) ≤ e.capital := by
  have hstart : Bounded size (start size breaker) :=
    ⟨rfl, show (0 : ℚ) < 100000 by norm_num, fun e he => by cases he⟩
  have hall : Throughout step (Bounded size) (start size breaker) inputs :=
    throughout_of_guarded (fun d x hx h (_ : True) => h.step hsize hx) hinputs hstart
      fun _ _ _ => trivial
  exact hall.last.emissions

/-- Twenty reported gains, fifty ticks at prices about 300, on the last of which the strategy buys,
and a fall of 3%. -/
def reportedFall : List IntradayInput :=
  let tick (price : ℚ) : IntradayInput := .tick { symbol := "AAPL", price, volume := 10 } 0
  List.replicate 20 (.updatePnl 1000) ++ .setCapital 50000 ::
    (List.range 50).map (fun i => tick (3 * (100 + (i % 2 : Nat)))) ++ [tick 294]

theorem reportedFall_sameSignals :
    (run step (start 100 (.new 100000 0)) reportedFall).emissions =
      (run step (start 100 (.new 100000 0)) (reportedFall.map toBreaker)).emissions := by
  apply updatePnl_only_recordsTrade
  intro capital hmem
  simp only [reportedFall, List.mem_append, List.mem_replicate, List.mem_cons, List.mem_map,
    reduceCtorEq, and_false, exists_false, false_or, or_false, IntradayInput.setCapital.injEq,
    List.not_mem_nil] at hmem
  rw [hmem]
  norm_num

/-- Both an entry and an exit, of different sizes. -/
theorem reportedFall_sized :
    let emissions := (run step (start 100 (.new 100000 0)) reportedFall).emissions
    (emissions.flatMap (·.signal.orders)).map (fun order => (order.isBuy, order.quantity)) =
        [(true, 12500 / 303), (false, 6250 / 147)] ∧
      ∀ e ∈ emissions, ∀ order ∈ e.signal.orders, 0 < order.quantity ∧
        order.quantity ≤ 3 / 2 * 100 ∧ 4 * (order.quantity * e.tick.price) ≤ e.capital := by
  intro emissions
  refine ⟨by decide +kernel, ?_⟩
  exact orders_sized (by norm_num) _ (by decide +kernel)

end IntradayDesk

end TradingTerminal
