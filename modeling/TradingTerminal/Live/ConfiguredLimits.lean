import TradingTerminal.Live.StartUp

/-!
# The limits of the configuration

`config.yaml` has a section for the risk limits and one for the circuit breaker. `main.cpp` reads
neither: the risk manager and the breaker decide with the values compiled into them. `Enforced` says
that an order is queued only if it passes both checks with the configured values. The counters of the
losses and of the breaker never move (`Undriven`), so this comes down to the order and the books:
`enforced_iff_inNoGap` says that a run is enforced exactly if none of its orders lies in a gap between
the configured limits and the compiled-in ones. Only limits that are nowhere stricter leave no gap at
all (`noStricter_iff`).
-/

namespace TradingTerminal

open Lib

/-- The limits that a configuration file can set, for the risk manager and for the breaker. -/
structure ConfiguredLimits where
  risk : Limits
  dailyLossLimit : ℚ
  maxDailyTrades : Int
  deriving DecidableEq

namespace ConfiguredLimits

/-- The values a file sets; `none` unless it sets them all to numbers. -/
def read (c : Config) : Option ConfiguredLimits := do
  let maxPositionSize ← c.doubleAt "risk.max_position_size".toList
  let maxPortfolioExposure ← c.doubleAt "risk.max_portfolio_exposure".toList
  let maxDailyLoss ← c.doubleAt "risk.max_daily_loss".toList
  let maxOrderSize ← c.doubleAt "risk.max_order_size".toList
  let minBalance ← c.doubleAt "risk.min_balance".toList
  let maxDailyTrades ← c.intAt "risk.max_daily_trades".toList
  let dailyLossLimit ← c.doubleAt "circuit_breaker.daily_loss_limit".toList
  let breakerTrades ← c.intAt "circuit_breaker.max_daily_trades".toList
  return {
    risk := { maxPositionSize, maxPortfolioExposure, maxDailyLoss, maxOrderSize, minBalance,
              maxDailyTrades }
    dailyLossLimit
    maxDailyTrades := breakerTrades }

/-- The values in the source of the two components. -/
def compiledIn : ConfiguredLimits := { risk := {}, dailyLossLimit := 0.05, maxDailyTrades := 50 }

/-- A breaker with the configured values in the place of its own. -/
def onBreaker (l : ConfiguredLimits) (b : CircuitBreaker) : CircuitBreaker :=
  { b with dailyLossLimit := l.dailyLossLimit, maxDailyTrades := l.maxDailyTrades }

/-- Both checks of `process_signal` with the configured values. -/
def Pass (l : ConfiguredLimits) (om : OrderManager) (now : TimePoint) (order : Order)
    (balance : ℚ) : Prop :=
  ((l.onBreaker om.breaker).canTrade now).1 = true ∧
    (om.risk.setLimits l.risk).canSubmitOrder order balance order.priceOrOne = true

instance (l : ConfiguredLimits) (om : OrderManager) (now : TimePoint) (order : Order)
    (balance : ℚ) : Decidable (l.Pass om now order balance) :=
  inferInstanceAs (Decidable (_ ∧ _))

/-- Past a limit, with no loss and no trade counted by the breaker: a limit on losses or on the
breaker's trades lets nothing through at all, the risk manager's trades are used up, or the order is
refused for its size. -/
def Past (l : ConfiguredLimits) (r : RiskManager) (order : Order) (balance : ℚ) : Prop :=
  l.dailyLossLimit ≤ 0 ∨ l.maxDailyTrades ≤ 0 ∨ l.risk.maxDailyLoss < 0 ∨
    l.risk.maxDailyTrades ≤ r.todayTrades ∨ SizedOut (r.setLimits l.risk) order balance

/-- Nowhere stricter than the limits compiled in; a limit on losses or on the breaker's trades only
needs to let something through. -/
structure NoStricter (l : ConfiguredLimits) : Prop where
  dailyLossLimit : 0 < l.dailyLossLimit
  maxDailyTrades : 0 < l.maxDailyTrades
  maxDailyLoss : 0 ≤ l.risk.maxDailyLoss
  riskTrades : 100 ≤ l.risk.maxDailyTrades
  maxOrderSize : 1000 ≤ l.risk.maxOrderSize
  minBalance : l.risk.minBalance ≤ 1000
  maxPositionSize : 10000 ≤ l.risk.maxPositionSize
  maxPortfolioExposure : 50000 ≤ l.risk.maxPortfolioExposure

theorem NoStricter.past {l : ConfiguredLimits} (hl : l.NoStricter) (r : RiskManager) (order : Order)
    (balance : ℚ) (h : l.Past r order balance) : compiledIn.Past r order balance := by
  rcases h with hloss | htrades | hloss | htrades | hsize
  · exact absurd hl.dailyLossLimit (not_lt.2 hloss)
  · exact absurd hl.maxDailyTrades (not_lt.2 htrades)
  · exact absurd hl.maxDailyLoss (not_le.2 hloss)
  · exact Or.inr (Or.inr (Or.inr (Or.inl (hl.riskTrades.trans htrades))))
  · refine Or.inr (Or.inr (Or.inr (Or.inr ?_)))
    rcases hsize with hsize | ⟨hb, hcash | hcap | hexp⟩ | hsell
    · exact Or.inl (hl.maxOrderSize.trans_lt hsize)
    · exact Or.inr (Or.inl ⟨hb, Or.inl (hcash.trans_le hl.minBalance)⟩)
    · exact Or.inr (Or.inl ⟨hb, Or.inr (Or.inl (hl.maxPositionSize.trans_lt hcap))⟩)
    · exact Or.inr (Or.inl ⟨hb, Or.inr (Or.inr (hl.maxPortfolioExposure.trans_lt hexp))⟩)
    · exact Or.inr (Or.inr hsell)

/-- Books that hold one symbol, and an order for that symbol at the price of one. -/
structure Probe where
  trades : Int := 0
  held : ℚ := 0
  exposure : ℚ := 0
  quantity : ℚ := 0
  isBuy : Bool := true
  balance : ℚ := 1000

namespace Probe

def risk (p : Probe) : RiskManager :=
  { positions := (∅ : UMap String ℚ).insert "" p.held, totalExposure := p.exposure, todayTrades := p.trades }

def order (p : Probe) : Order := { quantity := p.quantity, isBuy := p.isBuy }

theorem past_iff (p : Probe) (l : ConfiguredLimits) : l.Past p.risk p.order p.balance ↔
    l.dailyLossLimit ≤ 0 ∨ l.maxDailyTrades ≤ 0 ∨ l.risk.maxDailyLoss < 0 ∨
      l.risk.maxDailyTrades ≤ p.trades ∨ l.risk.maxOrderSize < p.quantity ∨
        (p.isBuy = true ∧ (p.balance - p.quantity < l.risk.minBalance ∨
          l.risk.maxPositionSize < p.held + p.quantity ∨
            l.risk.maxPortfolioExposure < p.exposure + p.quantity)) ∨
          (p.isBuy = false ∧ p.held < p.quantity) := by
  have hposition : (p.risk.setLimits l.risk).position p.order.symbol = p.held :=
    UMap.getD_insert_self _ _ _ _
  have hprice : p.order.priceOrOne = 1 := if_neg (lt_irrefl 0)
  unfold Past SizedOut
  rw [hposition, hprice]
  simp only [mul_one]
  rfl

end Probe

/-- Where a configured limit is stricter, some books and some order lie in the gap. -/
theorem noStricter_iff (l : ConfiguredLimits) : l.NoStricter ↔
    ∀ r order balance, l.Past r order balance → compiledIn.Past r order balance := by
  constructor
  · exact fun hl => hl.past
  · intro h
    have hprobe (p : Probe) := h p.risk p.order p.balance
    simp only [Probe.past_iff, compiledIn] at hprobe
    refine ⟨?_, ?_, ?_, ?_, ?_, ?_, ?_, ?_⟩
    · by_contra hstrict
      have hgap := hprobe {} (by simp [not_lt.1 hstrict])
      norm_num at hgap
    · by_contra hstrict
      have hgap := hprobe {} (by simp [not_lt.1 hstrict])
      norm_num at hgap
    · by_contra hstrict
      have hgap := hprobe {} (by simp [not_le.1 hstrict])
      norm_num at hgap
    · by_contra hstrict
      have hgap := hprobe { trades := l.risk.maxDailyTrades } (by simp)
      norm_num at hgap
      exact hstrict hgap
    · by_contra hstrict
      have hgap := hprobe { quantity := 1000, held := 1000, isBuy := false }
        (by simp [not_le.1 hstrict])
      norm_num at hgap
    · by_contra hstrict
      have hgap := hprobe {} (by simp [not_le.1 hstrict])
      norm_num at hgap
    · by_contra hstrict
      have hgap := hprobe { held := 10000 } (by simp [not_le.1 hstrict])
      norm_num at hgap
    · by_contra hstrict
      have hgap := hprobe { exposure := 50000 } (by simp [not_le.1 hstrict])
      norm_num at hgap

end ConfiguredLimits

/-- A breaker that counts neither losses nor trades stops trading only for limits that stop it at
once. -/
theorem ConfiguredLimits.canTrade_new_iff (l : ConfiguredLimits) (capital : ℚ)
    (lastReset now : TimePoint) :
    ((l.onBreaker (.new capital lastReset)).canTrade now).1 = true ↔
      0 < l.dailyLossLimit ∧ 0 < l.maxDailyTrades := by
  obtain ⟨lastReset', h⟩ :=
    checkAndResetDaily_of_zero (b := l.onBreaker (.new capital lastReset)) rfl rfl rfl now
  unfold CircuitBreaker.canTrade
  rw [h]
  simp only [onBreaker, CircuitBreaker.new, neg_zero, zero_div, Bool.false_eq_true, if_false]
  by_cases hloss : 0 < l.dailyLossLimit
  · by_cases htrades : 0 < l.maxDailyTrades
    · simp [not_le.2 hloss, not_le.2 htrades, hloss, htrades]
    · simp [not_le.2 hloss, not_lt.1 htrades, htrades]
  · simp [not_lt.1 hloss, hloss]

namespace OrderManager.Undriven

variable {capital : ℚ} {om : OrderManager}

/-- On an undriven manager the checks fail exactly for an order past a limit. -/
theorem pass_iff (h : Undriven {} capital om) (l : ConfiguredLimits) (now : TimePoint) (order : Order)
    (balance : ℚ) : l.Pass om now order balance ↔ ¬ l.Past om.risk order balance := by
  obtain ⟨lastReset, hbreaker⟩ := h.breaker
  have hrisk := RiskManager.canSubmitOrder_eq_false (r := om.risk.setLimits l.risk)
    h.dailyRealizedPnl order balance
  unfold ConfiguredLimits.Pass ConfiguredLimits.Past
  rw [hbreaker, l.canTrade_new_iff, ← Bool.not_eq_false, hrisk]
  simp only [RiskManager.setLimits, not_or, not_le, and_assoc]

/-- The values compiled in are the ones the checks run with. -/
theorem pass_compiledIn (h : Undriven {} capital om) (now : TimePoint) (order : Order) (balance : ℚ) :
    ConfiguredLimits.compiledIn.Pass om now order balance ↔
      ((om.breaker.canTrade now).1 &&
        om.risk.canSubmitOrder order balance order.priceOrOne) = true := by
  obtain ⟨lastReset, hbreaker⟩ := h.breaker
  have hrisk : om.risk.setLimits ConfiguredLimits.compiledIn.risk = om.risk := by
    rw [ConfiguredLimits.compiledIn, ← h.limits]
    rfl
  rw [ConfiguredLimits.Pass, hrisk, hbreaker, Bool.and_eq_true]
  rfl

end OrderManager.Undriven

namespace Terminal

/-! ## The system -/

/-- Every order that a turn queues passes the checks with the configured values. -/
def Enforced (l : ConfiguredLimits) (t : Terminal) : TerminalInput → Prop
  | .turn i turn =>
    ∀ pending ∈ (t.checkedStep (.turn i turn)).manager.orderQueue.drop t.manager.orderQueue.length,
      l.Pass t.manager turn.now pending.order (turn.balance 0)
  | .process .. => True

instance decidableEnforced (l : ConfiguredLimits) (t : Terminal) :
    ∀ x, Decidable (Enforced l t x)
  | .turn i turn =>
    inferInstanceAs (Decidable (∀ pending ∈
      (t.checkedStep (.turn i turn)).manager.orderQueue.drop t.manager.orderQueue.length,
      l.Pass t.manager turn.now pending.order (turn.balance 0)))
  | .process .. => isTrue trivial

/-- No order that a turn emits lies between the limits: past a configured one, and past none of those
compiled in. -/
def InNoGap (l : ConfiguredLimits) (t : Terminal) : TerminalInput → Prop
  | .turn i turn => ∀ strategy, t.strategies[i]? = some strategy →
      ∀ order ∈ (strategy.generateSignal turn.tick turn.clock).1.orders,
        l.Past t.manager.risk order (turn.balance 0) →
          ConfiguredLimits.compiledIn.Past t.manager.risk order (turn.balance 0)
  | .process .. => True

variable {t : Terminal} {capital : ℚ}

theorem undriven_main (c : Config) (now : TimePoint) :
    (main c now).manager.Undriven {} (c.getDouble "trading.initial_capital".toList 100000) :=
  ⟨rfl, rfl, now, rfl⟩

theorem undriven_checkedStep (h : t.manager.Undriven {} capital) (x : TerminalInput) :
    (t.checkedStep x).manager.Undriven {} capital := by
  cases x with
  | turn i turn =>
    cases hi : t.strategies[i]? with
    | none => simpa [checkedStep, step, hi] using h
    | some strategy =>
      rw [checkedStep_manager hi]
      exact h.processSignal _ _ _ _ _
  | process answer latency =>
    cases hnext : t.manager.nextOrder with
    | none => simpa [checkedStep, step, hnext] using h
    | some order => simpa [checkedStep, step, hnext] using h.processOrder answer latency

/-- A turn enforces the configured limits exactly if its order is in no gap. -/
theorem enforced_turn_iff (h : t.manager.Undriven {} capital) (l : ConfiguredLimits) (i : Nat)
    (turn : Turn) : Enforced l t (.turn i turn) ↔ InNoGap l t (.turn i turn) := by
  unfold Enforced InNoGap
  dsimp only
  cases hi : t.strategies[i]? with
  | none => simp [checkedStep, step, hi]
  | some strategy =>
    rw [checkedStep_manager hi]
    simp only [Option.some.injEq, forall_eq']
    rcases strategy.generateSignal_orders turn.tick turn.clock with
      ⟨hvalid, horders⟩ | ⟨hvalid, order, horders⟩
    · simp [OrderManager.processSignal, hvalid, horders]
    · have hpass := h.pass_iff l turn.now order (turn.balance 0)
      have hcompiled := h.pass_iff ConfiguredLimits.compiledIn turn.now order (turn.balance 0)
      rw [h.pass_compiledIn] at hcompiled
      rw [OrderManager.processSignal_queue_single _ _ hvalid horders, List.drop_left]
      simp only [horders, List.mem_singleton, forall_eq]
      split
      · next hok =>
        have hid : l.Pass t.manager turn.now { order with
            clientOrderId := OrderManager.clientOrderId (t.manager.counter + 1) } (turn.balance 0) ↔
            l.Pass t.manager turn.now order (turn.balance 0) := Iff.rfl
        simp only [List.mem_singleton, forall_eq, hid, hpass]
        exact ⟨fun hwithin hpast => absurd hpast hwithin,
          fun hgap hpast => (hcompiled.1 hok) (hgap hpast)⟩
      · next hblocked =>
        have hpast := not_not.1 (mt hcompiled.2 hblocked)
        simp [hpast]

/-- **The limits of the configuration.** For every file that sets the limits to numbers and every run
of the terminal that `main` builds from it, the configured limits are enforced on the run if and only
if no order that a strategy emits lies in a gap between them and the limits compiled in. -/
theorem enforced_iff_inNoGap (text : Text) (now : TimePoint) (inputs : List TerminalInput) :
    let c := (Config.loadFromFile {} (some text)).2
    ∀ l, ConfiguredLimits.read c = some l →
      (Guarded checkedStep (Enforced l) (main c now) inputs ↔
        Guarded checkedStep (InNoGap l) (main c now) inputs) := by
  intro c l _
  refine guarded_congr
    (I := fun t => t.manager.Undriven {} (c.getDouble "trading.initial_capital".toList 100000)) ?_ ?_
    (undriven_main c now)
  · intro t x h _
    exact undriven_checkedStep h x
  · intro t x h
    cases x with
    | turn i turn => exact enforced_turn_iff h l i turn
    | process answer latency => exact Iff.rfl

/-- Limits that are nowhere stricter than those compiled in leave no gap. -/
theorem inNoGap_of_noStricter {l : ConfiguredLimits} (hl : l.NoStricter) (t : Terminal)
    (x : TerminalInput) : InNoGap l t x := by
  cases x with
  | turn i turn => exact fun _ _ order _ => hl.past t.manager.risk order (turn.balance 0)
  | process answer latency => trivial

section Shipped

/-- A configuration file with the two sections of limits. -/
def limitsFile (risk breaker : List String) : Text :=
  (["risk:"] ++ risk ++ ["", "circuit_breaker:"] ++ breaker).flatMap fun line =>
    line.toList ++ ['\n']

/-- The limits of the shipped `config.yaml`. -/
def shippedFile : Text :=
  limitsFile
    ["  max_position_size: 5000.0      # Max $5k per position (was $10k)",
      "  max_portfolio_exposure: 25000.0 # Max $25k total exposure (was $50k)",
      "  max_daily_loss: 2000.0         # Stop after $2k loss (was $5k)",
      "  max_order_size: 1000.0         # Max $1k per order",
      "  min_balance: 5000.0            # Min $5k cash balance (was $1k)",
      "  max_daily_trades: 50           # Max 50 trades per day (was 100)"]
    ["  daily_loss_limit: 0.02         # 2% daily loss limit (was 5%)",
      "  max_daily_trades: 50           # Max 50 trades per day"]

def shippedLimits : ConfiguredLimits :=
  { risk :=
      { maxPositionSize := 5000, maxPortfolioExposure := 25000, maxDailyLoss := 2000
        maxOrderSize := 1000, minBalance := 5000, maxDailyTrades := 50 }
    dailyLossLimit := 0.02
    maxDailyTrades := 50 }

/-- Forty-nine quiet ticks at 50 and a jump to 51, with a cash balance of 5200. -/
def jump : List TerminalInput :=
  let turn (price : ℚ) : TerminalInput :=
    .turn 0
      { tick := { symbol := "AAPL", price, bid := price, ask := price }
        approve := false
        balance := fun _ => 5200 }
  List.replicate 49 (turn 50) ++ [turn 51]

/-- The momentum strategy buys ten shares for 510, which leaves 4690 in cash. The file asks for 5000
at least; the order is queued. -/
theorem shippedLimits_not_enforced : ¬ ∀ (text : Text) (l : ConfiguredLimits),
    ConfiguredLimits.read (Config.loadFromFile {} (some text)).2 = some l →
      ∀ (now : TimePoint) (inputs : List TerminalInput),
        Guarded checkedStep (Enforced l) (main (Config.loadFromFile {} (some text)).2 now) inputs := by
  intro h
  have hread : ConfiguredLimits.read (Config.loadFromFile {} (some shippedFile)).2 =
      some shippedLimits := by
    decide +kernel
  exact absurd (h shippedFile shippedLimits hread 0 jump) (by decide +kernel)

/-- A file with the values compiled in. -/
def compiledInFile : Text :=
  limitsFile
    ["  max_position_size: 10000", "  max_portfolio_exposure: 50000", "  max_daily_loss: 5000",
      "  max_order_size: 1000", "  min_balance: 1000", "  max_daily_trades: 100"]
    ["  daily_loss_limit: 0.05", "  max_daily_trades: 50"]

theorem compiledIn_enforced :
    Guarded checkedStep (Enforced ConfiguredLimits.compiledIn)
      (main (Config.loadFromFile {} (some compiledInFile)).2 0) jump := by
  have hread : ConfiguredLimits.read (Config.loadFromFile {} (some compiledInFile)).2 =
      some ConfiguredLimits.compiledIn := by
    decide +kernel
  have hgap : ConfiguredLimits.compiledIn.NoStricter := by
    constructor <;> simp only [ConfiguredLimits.compiledIn] <;> norm_num
  exact (enforced_iff_inNoGap compiledInFile 0 jump ConfiguredLimits.compiledIn hread).2
    fun _ x _ => inNoGap_of_noStricter hgap _ x

end Shipped

end Terminal

end TradingTerminal
