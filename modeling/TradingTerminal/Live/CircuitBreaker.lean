import Mathlib.Algebra.Order.Field.Rat
import Mathlib.Tactic.TypeStar

/-!
# The circuit breaker

`live/circuit_breaker.hpp`. A reading of `std::chrono::system_clock` is a number of nanoseconds;
`toTimeT` is `system_clock::to_time_t`, which drops the fraction of a second.
-/

namespace TradingTerminal

/-- A reading of the system clock, in nanoseconds since the epoch. -/
abbrev TimePoint := Int

def toTimeT (t : TimePoint) : Int := t.tdiv 1000000000

structure CircuitBreaker where
  dailyLossLimit : ℚ := 0.05
  dailyPnl : ℚ := 0
  initialCapital : ℚ := 100000
  tradeCount : Int := 0
  maxDailyTrades : Int := 50
  lastReset : TimePoint
  tripped : Bool := false

namespace CircuitBreaker

def new (capital : ℚ) (now : TimePoint) : CircuitBreaker :=
  { initialCapital := capital, lastReset := now }

def checkAndResetDaily (b : CircuitBreaker) (now : TimePoint) : CircuitBreaker :=
  if toTimeT now - toTimeT b.lastReset ≥ 86400 then
    { b with dailyPnl := 0, tradeCount := 0, tripped := false, lastReset := now }
  else b

/-- `CircuitBreaker::can_trade`: the answer and the breaker after it. -/
def canTrade (b : CircuitBreaker) (now : TimePoint) : Bool × CircuitBreaker :=
  let b := b.checkAndResetDaily now
  if b.tripped then (false, b)
  else
    let lossPercent := -b.dailyPnl / b.initialCapital
    if lossPercent ≥ b.dailyLossLimit then (false, { b with tripped := true })
    else if b.tradeCount ≥ b.maxDailyTrades then (false, b)
    else (true, b)

def recordTrade (b : CircuitBreaker) (pnl : ℚ) : CircuitBreaker :=
  { b with dailyPnl := b.dailyPnl + pnl, tradeCount := b.tradeCount + 1 }

def reset (b : CircuitBreaker) : CircuitBreaker :=
  { b with dailyPnl := 0, tradeCount := 0, tripped := false }

end CircuitBreaker

end TradingTerminal
