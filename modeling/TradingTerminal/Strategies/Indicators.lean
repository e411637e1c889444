import Mathlib.Algebra.BigOperators.Group.List.Basic
import Mathlib.Algebra.Order.Field.Rat
import Mathlib.Data.Nat.Sqrt
import Mathlib.Data.Rat.Floor

/-!
# Windows and indicators

The computations on price windows that the live strategies share. A `std::deque` is a list with its
back at the end. Division by zero gives `0` where a `double` would give an infinity or a NaN.
-/

namespace TradingTerminal

/-- `push_back` followed by `pop_front` while more than `n` elements are held. -/
def pushWindow (n : Nat) (xs : List ℚ) (x : ℚ) : List ℚ :=
  let xs := xs ++ [x]
  xs.drop (xs.length - n)

def lastN (n : Nat) (xs : List ℚ) : List ℚ := xs.drop (xs.length - n)

/-- The sum of the last 20 prices over 20. -/
def sma20Of (prices : List ℚ) : ℚ := (lastN 20 prices).sum / 20

def meanOf (prices : List ℚ) : ℚ := prices.sum / prices.length

/-- The sums of the gains and of the losses over consecutive prices. -/
def gainsAndLosses (prices : List ℚ) : ℚ × ℚ :=
  (List.zipWith (· - ·) prices.tail prices).foldl
    (fun (gain, loss) change => if change > 0 then (gain + change, loss) else (gain, loss - change))
    (0, 0)

/-- `calculate_rsi` on the last 15 prices. -/
def rsiOf (prices : List ℚ) : ℚ :=
  let (gain, loss) := gainsAndLosses (lastN 15 prices)
  let avgGain := gain / 14
  let avgLoss := loss / 14
  if avgLoss = 0 then 100
  else
    let rs := avgGain / avgLoss
    100 - 100 / (1 + rs)

/-- `calculate_momentum`: the relative change over the last 20 prices. At an old price of zero the
source's quotient is infinite or no number, and this one is zero. -/
def momentumOf (prices : List ℚ) : ℚ :=
  let oldPrice := prices.getD (prices.length - 20) 0
  let newPrice := prices.getLastD 0
  (newPrice - oldPrice) / oldPrice

/-- The mean squared distance from the mean. -/
def varianceOf (returns : List ℚ) : ℚ :=
  let mean := meanOf returns
  (returns.map fun r => (r - mean) * (r - mean)).sum / returns.length

/-- `std::sqrt`, cut off after 52 binary places. -/
def sqrt (x : ℚ) : ℚ := (Nat.sqrt ⌊x * 2 ^ 104⌋₊ : ℚ) / 2 ^ 52

end TradingTerminal
