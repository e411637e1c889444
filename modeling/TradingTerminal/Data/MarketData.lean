import TradingTerminal.Core.Types
import TradingTerminal.Data.Cache
import TradingTerminal.Lib.BoundedHistory
import Mathlib.Algebra.Order.Field.Rat
import Mathlib.Tactic.Linarith

/-!
# The market data aggregator

`data/market_data.hpp`: the last thousand ticks of every symbol, read back through a window whose
start is computed in `int`. A subtraction out of the range of `int` and an iterator past the end of
the vector have no defined result; they are faults. Callbacks of subscribers are left out.

After any ticks, `run_exact_iff` says for which arguments the three readers give the window that was
asked for.
-/

namespace TradingTerminal

open Lib

/-- What the readers of a window can do that has no defined result. -/
inductive WindowFault where
  | intOverflow
  | pastEnd
  deriving DecidableEq, Repr

structure MarketDataAggregator where
  cache : LRUCache String Tick := { capacity := 10000 }
  symbolTicks : UMap String (List Tick) := ∅
  lastPrices : UMap String ℚ := ∅

namespace MarketDataAggregator

/-- How many ticks of a symbol are kept. -/
def historySize : Nat := 1000

def onTick (m : MarketDataAggregator) (tick : Tick) : MarketDataAggregator where
  cache := m.cache.put tick.symbol tick
  symbolTicks :=
    m.symbolTicks.insert tick.symbol
      (pushBounded historySize (UMap.getD m.symbolTicks tick.symbol []) tick)
  lastPrices := m.lastPrices.insert tick.symbol tick.price

def getLastPrice (m : MarketDataAggregator) (symbol : String) : ℚ :=
  (m.lastPrices.lookup symbol).getD 0

/-- `std::max(0, static_cast<int>(ticks.size()) - count)` -/
def windowStart (size : Nat) (count : Int32) : Except WindowFault Nat :=
  let difference := (size : Int).bmod (2 ^ 32) - count.toInt
  if -2 ^ 31 ≤ difference ∧ difference < 2 ^ 31 then .ok (max 0 difference).toNat
  else .error .intOverflow

def getHistoricalTicks (m : MarketDataAggregator) (symbol : String) (count : Int32) :
    Except WindowFault (List Tick) :=
  match m.symbolTicks.lookup symbol with
  | none => .ok []
  | some ticks => do
    let start ← windowStart ticks.length count
    if ticks.length < start then .error .pastEnd else .ok (ticks.drop start)

/-- The sums of the loop of `get_vwap`: value and volume. -/
def totals (ticks : List Tick) : ℚ × ℚ :=
  ticks.foldl (fun total tick => (total.1 + tick.price * tick.volume, total.2 + tick.volume)) (0, 0)

def getVwap (m : MarketDataAggregator) (symbol : String) (lookback : Int32) :
    Except WindowFault ℚ :=
  match m.symbolTicks.lookup symbol with
  | none => .ok 0
  | some ticks => do
    let start ← windowStart ticks.length lookback
    let (totalValue, totalVolume) := totals (ticks.drop start)
    return if totalVolume > 0 then totalValue / totalVolume else 0

/-! ## The window asked for -/

/-- The ticks of a symbol, in the order in which they arrive. -/
def ticksOf (ticks : List Tick) (symbol : String) : List Tick := ticks.filter (·.symbol = symbol)

/-- The last `count` ticks of a symbol, as far as they are kept. -/
def window (ticks : List Tick) (symbol : String) (count : Int32) : List Tick :=
  (ticksOf ticks symbol).rtake
    (min (max count.toInt 0).toNat (min historySize (ticksOf ticks symbol).length))

def value (ticks : List Tick) : ℚ := (ticks.map fun tick => tick.price * tick.volume).sum

def volume (ticks : List Tick) : ℚ := (ticks.map Tick.volume).sum

/-- The volume-weighted mean price. -/
def vwap (ticks : List Tick) : ℚ := if volume ticks = 0 then 0 else value ticks / volume ticks

/-- The readers give the window, the last price and the mean over the window. -/
structure Exact (m : MarketDataAggregator) (ticks : List Tick) (symbol : String)
    (count lookback : Int32) : Prop where
  history : m.getHistoricalTicks symbol count = .ok (window ticks symbol count)
  lastPrice : m.getLastPrice symbol = (((ticksOf ticks symbol).getLast?).map Tick.price).getD 0
  vwap : m.getVwap symbol lookback = .ok (vwap (window ticks symbol lookback))

/-! ## What is stored -/

/-- After any ticks a symbol has its last thousand, and the price of the last of them. -/
theorem run_onTick (ticks : List Tick) (symbol : String) :
    (run onTick {} ticks).symbolTicks.lookup symbol =
        (if ticksOf ticks symbol = [] then none
          else some ((ticksOf ticks symbol).rtake historySize)) ∧
      (run onTick {} ticks).lastPrices.lookup symbol =
        ((ticksOf ticks symbol).getLast?).map Tick.price := by
  induction ticks using List.reverseRecOn generalizing symbol with
  | nil => exact ⟨rfl, rfl⟩
  | append_singleton ticks tick ih =>
    rw [run_concat]
    unfold onTick
    by_cases hsymbol : symbol = tick.symbol
    · subst hsymbol
      have hstored : UMap.getD (run onTick {} ticks).symbolTicks tick.symbol [] =
          (ticksOf ticks tick.symbol).rtake historySize := by
        rw [UMap.getD, (ih tick.symbol).1]
        split
        · next hnil => rw [hnil, List.rtake_nil, Option.getD_none]
        · rw [Option.getD_some]
      have hticks : ticksOf (ticks ++ [tick]) tick.symbol = ticksOf ticks tick.symbol ++ [tick] := by
        simp [ticksOf]
      unfold onTick at hstored
      rw [AList.lookup_insert, AList.lookup_insert, hticks, hstored, pushBounded_rtake (by decide)]
      simp
    · have hticks : ticksOf (ticks ++ [tick]) symbol = ticksOf ticks symbol := by
        simp [ticksOf, Ne.symm hsymbol]
      rw [AList.lookup_insert_ne hsymbol, AList.lookup_insert_ne hsymbol, hticks]
      exact ih symbol

theorem totals_eq (ticks : List Tick) : totals ticks = (value ticks, volume ticks) := by
  unfold totals
  induction ticks using List.reverseRecOn with
  | nil => rfl
  | append_singleton ticks tick ih =>
    rw [List.foldl_append, ih]
    simp [value, volume]

/-! ## The start of a window -/

/-- The start is defined unless the subtraction overflows upwards. -/
theorem windowStart_eq {size : Nat} (hsize : size ≤ historySize) (count : Int32) :
    windowStart size count =
      if (size : Int) - count.toInt < 2 ^ 31 then .ok (max 0 ((size : Int) - count.toInt)).toNat
      else .error .intOverflow := by
  have hlow := Int32.le_toInt count
  have hhigh := Int32.toInt_lt count
  have hcast : (size : Int).bmod (2 ^ 32) = size := by
    unfold historySize at hsize
    apply Int.bmod_eq_of_le <;> omega
  unfold windowStart
  rw [hcast]
  dsimp only
  by_cases h : (size : Int) - count.toInt < 2 ^ 31
  · rw [if_pos h, if_pos ⟨by omega, h⟩]
  · rw [if_neg h, if_neg fun hrange => h hrange.2]

section Readers

variable {m : MarketDataAggregator} {symbol : String} {all : List Tick}

/-- The history is the window exactly if no negative count is asked for. -/
theorem getHistoricalTicks_eq_iff
    (h : m.symbolTicks.lookup symbol = some (all.rtake historySize)) (hne : all ≠ []) (count : Int32) :
    m.getHistoricalTicks symbol count =
        .ok (all.rtake (min (max count.toInt 0).toNat (min historySize all.length))) ↔
      0 ≤ count.toInt := by
  have hhigh := Int32.toInt_lt count
  have hsize : min historySize all.length ≤ historySize := min_le_left _ _
  have hpos : 0 < min historySize all.length :=
    lt_min (by decide) (List.length_pos_iff.2 hne)
  unfold getHistoricalTicks
  rw [h]
  dsimp only
  rw [length_rtake, windowStart_eq hsize]
  by_cases hcount : 0 ≤ count.toInt
  · refine iff_of_true ?_ hcount
    unfold historySize at *
    rw [if_pos (by omega)]
    change (if _ < _ then _ else _) = _
    rw [if_neg (by omega), drop_rtake]
    congr 2
    omega
  · refine iff_of_false ?_ hcount
    split
    · change (if _ < _ then _ else _) ≠ _
      rw [if_pos (by omega)]
      simp
    · intro heq
      cases heq

/-- The quotient of the code is the mean, unless a negative volume is in the way. -/
theorem mean_eq_iff (ticks : List Tick) :
    (if volume ticks > 0 then value ticks / volume ticks else 0) = vwap ticks ↔
      0 ≤ volume ticks ∨ value ticks = 0 := by
  unfold vwap
  rcases lt_trichotomy (volume ticks) 0 with hneg | hzero | hpos
  · rw [if_neg (not_lt.2 hneg.le), if_neg hneg.ne, eq_comm, div_eq_zero_iff, or_comm,
      or_iff_right hneg.ne, or_iff_right (not_le.2 hneg)]
  · rw [if_neg (not_lt.2 hzero.le), if_pos hzero]
    exact iff_of_true rfl (Or.inl hzero.ge)
  · rw [if_pos hpos, if_neg hpos.ne']
    exact iff_of_true rfl (Or.inl hpos.le)

/-- The mean is the one over the window exactly if the start is defined and no negative volume is in
the way; a negative lookback finds the empty window. -/
theorem getVwap_eq_iff (h : m.symbolTicks.lookup symbol = some (all.rtake historySize))
    (lookback : Int32) :
    m.getVwap symbol lookback =
        .ok (vwap (all.rtake (min (max lookback.toInt 0).toNat (min historySize all.length)))) ↔
      ((min historySize all.length : Nat) : Int) - lookback.toInt < 2 ^ 31 ∧
        (0 ≤ volume (all.rtake (min (max lookback.toInt 0).toNat (min historySize all.length))) ∨
          value (all.rtake (min (max lookback.toInt 0).toNat (min historySize all.length))) = 0) := by
  have hsize : min historySize all.length ≤ historySize := min_le_left _ _
  unfold getVwap
  rw [h]
  dsimp only
  rw [length_rtake, windowStart_eq hsize]
  by_cases hdefined : ((min historySize all.length : Nat) : Int) - lookback.toInt < 2 ^ 31
  · have hstart : min historySize all.length -
        (max 0 (((min historySize all.length : Nat) : Int) - lookback.toInt)).toNat =
          min (max lookback.toInt 0).toNat (min historySize all.length) := by
      omega
    rw [if_pos hdefined, and_iff_right hdefined, ← mean_eq_iff]
    change Except.ok (if (totals _).2 > 0 then (totals _).1 / (totals _).2 else 0) = _ ↔ _
    rw [drop_rtake, hstart, totals_eq]
    exact ⟨fun heq => Except.ok.inj heq, fun heq => congrArg Except.ok heq⟩
  · rw [if_neg hdefined]
    refine iff_of_false ?_ fun hboth => hdefined hboth.1
    intro heq
    cases heq

end Readers

/-- **The readers of the history.** After any ticks and for any symbol, count and lookback, the three
readers are exact if and only if the symbol has no ticks, or the count is not negative, the start of
the mean is an `int`, and the volumes it covers do not add up to a negative number (or their value is
zero). -/
theorem run_exact_iff (ticks : List Tick) (symbol : String) (count lookback : Int32) :
    Exact (run onTick {} ticks) ticks symbol count lookback ↔
      (ticksOf ticks symbol ≠ [] → 0 ≤ count.toInt ∧
        ((min historySize (ticksOf ticks symbol).length : Nat) : Int) - lookback.toInt < 2 ^ 31 ∧
        (0 ≤ volume (window ticks symbol lookback) ∨ value (window ticks symbol lookback) = 0)) := by
  obtain ⟨hticks, hprice⟩ := run_onTick ticks symbol
  have hlast : (run onTick {} ticks).getLastPrice symbol =
      (((ticksOf ticks symbol).getLast?).map Tick.price).getD 0 := by
    rw [getLastPrice, hprice]
  by_cases hnil : ticksOf ticks symbol = []
  · rw [if_pos hnil] at hticks
    refine iff_of_true ⟨?_, hlast, ?_⟩ fun hne => absurd hnil hne
    · rw [getHistoricalTicks, hticks, window, hnil, List.rtake_nil]
    · rw [getVwap, hticks, window, hnil, List.rtake_nil]
      rfl
  · rw [if_neg hnil] at hticks
    have hhistory := getHistoricalTicks_eq_iff hticks hnil count
    have hvwap := getVwap_eq_iff hticks lookback
    constructor
    · intro hexact _
      exact ⟨hhistory.1 hexact.history, hvwap.1 hexact.vwap⟩
    · intro hcondition
      obtain ⟨hcount, hmean⟩ := hcondition hnil
      exact ⟨hhistory.2 hcount, hlast, hvwap.2 hmean⟩

/-- One tick. -/
def firstTick : Tick := { symbol := "AAPL", price := 150, volume := 10 }

/-- A negative count takes the start past the end of the vector. -/
theorem negativeCount_not_exact :
    (run onTick {} [firstTick]).getHistoricalTicks "AAPL" (-1) = .error .pastEnd ∧
      ¬ Exact (run onTick {} [firstTick]) [firstTick] "AAPL" (-1) 20 := by
  have hfault : (run onTick {} [firstTick]).getHistoricalTicks "AAPL" (-1) = .error .pastEnd := by
    rfl
  refine ⟨hfault, fun h => ?_⟩
  have hhistory := h.history
  rw [hfault] at hhistory
  cases hhistory

end MarketDataAggregator

end TradingTerminal
