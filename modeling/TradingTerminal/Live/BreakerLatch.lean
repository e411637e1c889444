import TradingTerminal.Live.CircuitBreaker
import TradingTerminal.Lib.Run
import Mathlib.Tactic.Linarith

/-!
# Runs of the circuit breaker

A session is a breaker with the clock reading of its last query and the answer to its last call.
Once stopped for its losses it stays stopped until a `reset` or the next day (`Latches`); with each
trade recorded right after a query that allowed it, the day's trades and losses stay bounded. Days
are told apart by whole seconds: the clock readings lose their fractions before they are compared.
-/

namespace TradingTerminal

open Lib

namespace CircuitBreaker

/-- What `check_and_reset_daily` asks: a day lies between the whole seconds of two readings. -/
def NewDay (last now : TimePoint) : Prop := 86400 ≤ toTimeT now - toTimeT last

/-- A day lies between two readings, to the nanosecond. -/
def FullDay (last now : TimePoint) : Prop := 86400 * 1000000000 ≤ now - last

/-- `can_trade` answers no for the losses: the breaker has tripped, or trips now. -/
def StopsForLoss (b : CircuitBreaker) (now : TimePoint) : Prop :=
  let b := b.checkAndResetDaily now
  b.tripped = true ∨ b.dailyLossLimit ≤ -b.dailyPnl / b.initialCapital

variable {b : CircuitBreaker} {now : TimePoint}

theorem toTimeT_mono {t t' : TimePoint} (h : t ≤ t') : toTimeT t ≤ toTimeT t' :=
  Int.tdiv_le_tdiv (by omega) h

theorem checkAndResetDaily_of_not_newDay (h : ¬ NewDay b.lastReset now) :
    b.checkAndResetDaily now = b :=
  if_neg h

theorem checkAndResetDaily_of_newDay (h : NewDay b.lastReset now) :
    b.checkAndResetDaily now =
      { b with dailyPnl := 0, tradeCount := 0, tripped := false, lastReset := now } :=
  if_pos h

theorem canTrade_of_stopsForLoss (h : b.StopsForLoss now) :
    b.canTrade now = (false, { b.checkAndResetDaily now with tripped := true }) := by
  unfold canTrade
  rcases h with htripped | hloss
  · simp only [htripped, if_true]
    rw [← htripped]
  · by_cases htripped : (b.checkAndResetDaily now).tripped = true
    · simp only [htripped, if_true]
      rw [← htripped]
    · simp only [htripped, ge_iff_le, hloss, if_true]
      simp

theorem canTrade_of_not_stopsForLoss (h : ¬ b.StopsForLoss now) :
    b.canTrade now = (decide ((b.checkAndResetDaily now).tradeCount <
      (b.checkAndResetDaily now).maxDailyTrades), b.checkAndResetDaily now) := by
  obtain ⟨htripped, hloss⟩ := not_or.1 h
  unfold canTrade
  simp only [htripped, ge_iff_le, if_neg hloss]
  by_cases hcount : (b.checkAndResetDaily now).maxDailyTrades ≤ (b.checkAndResetDaily now).tradeCount
  · simp [hcount]
  · simp [hcount, lt_of_not_ge hcount]

end CircuitBreaker

/-- The calls of a breaker's owner. -/
inductive BreakerCall where
  | canTrade (now : TimePoint)
  | recordTrade (pnl : ℚ)
  | reset
  deriving DecidableEq

/-- A breaker in use: the clock at its last query, and what the last call returned if it was one. -/
structure BreakerSession where
  breaker : CircuitBreaker
  clock : TimePoint
  answer : Option Bool := none

namespace BreakerSession

def new (capital : ℚ) (start : TimePoint) : BreakerSession :=
  { breaker := .new capital start, clock := start }

def step (s : BreakerSession) : BreakerCall → BreakerSession
  | .canTrade now =>
    { breaker := (s.breaker.canTrade now).2, clock := now, answer := some (s.breaker.canTrade now).1 }
  | .recordTrade pnl => { s with breaker := s.breaker.recordTrade pnl, answer := none }
  | .reset => { s with breaker := s.breaker.reset, answer := none }

/-- The clock does not go back. -/
def ClockForward (s : BreakerSession) : BreakerCall → Prop
  | .canTrade now => s.clock ≤ now
  | _ => True

/-- A trade is recorded right after a query that allowed it. -/
def RecordsAllowed (s : BreakerSession) : BreakerCall → Prop
  | .recordTrade _ => s.answer = some true
  | _ => True

/-- Before a recorded trade the day's loss is below the limit. -/
def LossBounded (s : BreakerSession) : BreakerCall → Prop
  | .recordTrade _ => -(s.breaker.dailyLossLimit * s.breaker.initialCapital) < s.breaker.dailyPnl
  | _ => True

def TradesBounded (s : BreakerSession) : Prop := s.breaker.tradeCount ≤ s.breaker.maxDailyTrades

/-- A query that is answered no for the losses is followed by no other answer, until a `reset` or
until `newDay` has come since the breaker's last reset. -/
def Latches (newDay : TimePoint → TimePoint → Prop) (s : BreakerSession) (xs : List BreakerCall) :
    Prop :=
  ∀ earlier now between later, earlier ++ .canTrade now :: (between ++ [.canTrade later]) <+: xs →
    (run step s earlier).breaker.StopsForLoss now → .reset ∉ between →
    ¬ newDay (run step s (earlier ++ [.canTrade now])).breaker.lastReset later →
    (run step s (earlier ++ .canTrade now :: (between ++ [.canTrade later]))).answer = some false

variable {s : BreakerSession}

/-! ## The latch -/

theorem clock_le {xs : List BreakerCall} {later : TimePoint}
    (h : Guarded step ClockForward s (xs ++ [.canTrade later])) : s.clock ≤ later := by
  induction xs generalizing s with
  | nil => exact (guarded_cons.1 h).1
  | cons x xs ih =>
    obtain ⟨hx, hxs⟩ := guarded_cons.1 h
    have hrest := ih hxs
    cases x with
    | canTrade now => exact le_trans hx hrest
    | recordTrade | reset => exact hrest

/-- A tripped breaker stays tripped, and its day goes on, over a run without a `reset` that ends
before the next day. -/
theorem run_tripped {between : List BreakerCall} {later : TimePoint}
    (hclock : Guarded step ClockForward s (between ++ [.canTrade later]))
    (htripped : s.breaker.tripped = true) (hreset : .reset ∉ between)
    (hday : ¬ CircuitBreaker.NewDay s.breaker.lastReset later) :
    (run step s between).breaker.tripped = true ∧
      (run step s between).breaker.lastReset = s.breaker.lastReset := by
  induction between generalizing s with
  | nil => exact ⟨htripped, rfl⟩
  | cons x between ih =>
    obtain ⟨-, hrest⟩ := guarded_cons.1 hclock
    have hreset' : .reset ∉ between := fun hmem => hreset (List.mem_cons_of_mem x hmem)
    rw [run_cons]
    cases x with
    | canTrade now =>
      -- the query comes before `later`, so it does not start a new day either
      have hle : now ≤ later := clock_le hrest
      have hnow : ¬ CircuitBreaker.NewDay s.breaker.lastReset now := by
        have hmono := CircuitBreaker.toTimeT_mono hle
        unfold CircuitBreaker.NewDay at hday ⊢
        omega
      have hstops : s.breaker.StopsForLoss now := by
        left
        rw [CircuitBreaker.checkAndResetDaily_of_not_newDay hnow]
        exact htripped
      have hafter : (s.step (.canTrade now)).breaker = { s.breaker with tripped := true } := by
        rw [step, CircuitBreaker.canTrade_of_stopsForLoss hstops,
          CircuitBreaker.checkAndResetDaily_of_not_newDay hnow]
      have hlast : (s.step (.canTrade now)).breaker.lastReset = s.breaker.lastReset := by rw [hafter]
      rw [← hlast] at hday ⊢
      exact ih hrest (by rw [hafter]) hreset' hday
    | recordTrade pnl => exact ih hrest htripped hreset' hday
    | reset => exact absurd List.mem_cons_self hreset

theorem latches {xs : List BreakerCall} (hclock : Guarded step ClockForward s xs) :
    Latches CircuitBreaker.NewDay s xs := by
  intro earlier now between later hxs hstops hreset hday
  have hguard : Guarded step ClockForward (run step s (earlier ++ [.canTrade now]))
      (between ++ [.canTrade later]) := by
    intro ys x hys
    rw [← run_append]
    apply hclock
    refine List.IsPrefix.trans ?_ hxs
    rw [List.append_assoc, List.append_assoc, List.prefix_append_right_inj, List.singleton_append,
      List.prefix_cons_inj]
    exact hys
  have htripped : (run step s (earlier ++ [.canTrade now])).breaker.tripped = true := by
    rw [run_concat, step, CircuitBreaker.canTrade_of_stopsForLoss hstops]
  obtain ⟨hstill, hlast⟩ := run_tripped hguard htripped hreset hday
  have hsplit : earlier ++ .canTrade now :: (between ++ [.canTrade later]) =
      earlier ++ [.canTrade now] ++ between ++ [.canTrade later] := by
    simp
  rw [hsplit, run_concat, run_append]
  generalize run step (run step s (earlier ++ [.canTrade now])) between = s' at *
  rw [← hlast] at hday
  have hstops' : s'.breaker.StopsForLoss later := by
    left
    rw [CircuitBreaker.checkAndResetDaily_of_not_newDay hday]
    exact hstill
  rw [step, CircuitBreaker.canTrade_of_stopsForLoss hstops']

/-! ## The bounds of a day -/

/-- The invariant of sessions that record allowed trades: room for one more trade, and a loss below
the limit, after a query that allowed it. -/
structure Bounded (capital : ℚ) (s : BreakerSession) : Prop where
  capital : s.breaker.initialCapital = capital
  maxTrades : 0 ≤ s.breaker.maxDailyTrades
  trades : TradesBounded s
  room : s.answer = some true → s.breaker.tradeCount < s.breaker.maxDailyTrades
  loss : s.answer = some true →
    -(s.breaker.dailyLossLimit * s.breaker.initialCapital) < s.breaker.dailyPnl

theorem Bounded.new (capital : ℚ) (start : TimePoint) : Bounded capital (.new capital start) where
  capital := rfl
  maxTrades := by simp [BreakerSession.new, CircuitBreaker.new]
  trades := by simp [TradesBounded, BreakerSession.new, CircuitBreaker.new]
  room := by rintro ⟨⟩
  loss := by rintro ⟨⟩

theorem Bounded.canTrade {capital : ℚ} (hcapital : 0 < capital) (h : Bounded capital s)
    (now : TimePoint) : Bounded capital (s.step (.canTrade now)) := by
  have hchecked : (s.breaker.checkAndResetDaily now).initialCapital = capital ∧
      0 ≤ (s.breaker.checkAndResetDaily now).maxDailyTrades ∧
      (s.breaker.checkAndResetDaily now).tradeCount ≤
        (s.breaker.checkAndResetDaily now).maxDailyTrades := by
    by_cases hday : CircuitBreaker.NewDay s.breaker.lastReset now
    · rw [CircuitBreaker.checkAndResetDaily_of_newDay hday]
      exact ⟨h.capital, h.maxTrades, h.maxTrades⟩
    · rw [CircuitBreaker.checkAndResetDaily_of_not_newDay hday]
      exact ⟨h.capital, h.maxTrades, h.trades⟩
  obtain ⟨hcap, hmax, htrades⟩ := hchecked
  by_cases hstops : s.breaker.StopsForLoss now
  · rw [step, CircuitBreaker.canTrade_of_stopsForLoss hstops]
    exact ⟨hcap, hmax, htrades, by rintro ⟨⟩, by rintro ⟨⟩⟩
  · rw [step, CircuitBreaker.canTrade_of_not_stopsForLoss hstops]
    refine ⟨hcap, hmax, htrades, fun hyes => by simpa using hyes, fun _ => ?_⟩
    have hloss := lt_of_not_ge (not_or.1 hstops).2
    dsimp only
    rw [hcap, div_lt_iff₀ hcapital] at hloss
    rw [hcap]
    linarith

theorem Bounded.step {capital : ℚ} (hcapital : 0 < capital) (x : BreakerCall) (h : Bounded capital s)
    (hx : RecordsAllowed s x) : Bounded capital (s.step x) := by
  cases x with
  | canTrade now => exact h.canTrade hcapital now
  | recordTrade pnl => exact ⟨h.capital, h.maxTrades, h.room hx, by rintro ⟨⟩, by rintro ⟨⟩⟩
  | reset => exact ⟨h.capital, h.maxTrades, h.maxTrades, by rintro ⟨⟩, by rintro ⟨⟩⟩

/-- **The breaker latches and bounds the day.** On every run with a clock that does not go back, a
breaker stopped for its losses stays stopped until a `reset` or until the whole seconds of the clock
are 86400 past its last reset; and if each trade is recorded right after a query that allowed it, the
trades of a day never exceed their limit, and before each recorded trade the loss is below its own. -/
theorem latches_and_bounds {capital : ℚ} (hcapital : 0 < capital) (start : TimePoint)
    (xs : List BreakerCall) (hclock : Guarded step ClockForward (.new capital start) xs) :
    Latches CircuitBreaker.NewDay (.new capital start) xs ∧
      (Guarded step RecordsAllowed (.new capital start) xs →
        Throughout step TradesBounded (.new capital start) xs ∧
          Guarded step LossBounded (.new capital start) xs) := by
  refine ⟨latches hclock, fun hallowed => ?_⟩
  have hall : Throughout step (Bounded capital) (.new capital start) xs :=
    throughout_of_guarded (H := fun _ => True) (fun s x _ h hx => h.step hcapital x hx)
      (fun _ _ => trivial) (Bounded.new capital start) hallowed
  refine ⟨fun ys hys => (hall ys hys).trades, fun ys x hys => ?_⟩
  cases x with
  | canTrade | reset => trivial
  | recordTrade pnl =>
    exact (hall ys ((List.prefix_append ys _).trans hys)).loss (hallowed ys _ hys)

section EarlyDay

/-- A loss of six percent, recorded with the start of the session at nine tenths of a second. -/
def lossThenQuery (later : TimePoint) : List BreakerCall :=
  [.canTrade 900000000, .recordTrade (-6000), .canTrade 1000000000, .canTrade later]

theorem lossThenQuery_clockForward {later : TimePoint} (h : 1000000000 ≤ later) :
    Guarded step ClockForward (.new 100000 900000000) (lossThenQuery later) := by
  simp [lossThenQuery, ClockForward, step, new, h]

/-- The loss keeps trading stopped for the rest of the day. -/
theorem lossThenQuery_stopped :
    (run step (.new 100000 900000000) (lossThenQuery 80000000000000)).answer = some false := by
  have h := (latches_and_bounds (by norm_num) 900000000 (lossThenQuery 80000000000000)
    (lossThenQuery_clockForward (by norm_num))).1
  refine h [.canTrade 900000000, .recordTrade (-6000)] 1000000000 [] 80000000000000
    (List.prefix_refl _) (Or.inr (by decide +kernel)) (by simp) ?_
  unfold CircuitBreaker.NewDay
  decide +kernel

/-- The breaker trips, and trades again 86399.2 seconds after its last reset. -/
theorem newDay_before_fullDay :
    Guarded step ClockForward (.new 100000 900000000) (lossThenQuery 86400100000000) ∧
      ¬ Latches CircuitBreaker.FullDay (.new 100000 900000000) (lossThenQuery 86400100000000) := by
  refine ⟨lossThenQuery_clockForward (by norm_num), fun h => ?_⟩
  have hstopped := h [.canTrade 900000000, .recordTrade (-6000)] 1000000000 [] 86400100000000
    (List.prefix_refl _) (Or.inr (by decide +kernel)) (by simp)
    (by unfold CircuitBreaker.FullDay; decide +kernel)
  exact absurd hstopped (by decide +kernel)

end EarlyDay

end BreakerSession

end TradingTerminal
