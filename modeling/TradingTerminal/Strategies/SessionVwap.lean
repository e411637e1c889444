import TradingTerminal.Lib.Run
import TradingTerminal.Lib.WeightedMean
import TradingTerminal.Strategies.SymbolIndependence
import TradingTerminal.Strategies.VWAPStrategy

/-!
# Trading against the session's mean

`strategies/vwap_strategy.hpp`: the average that `generate_signal` compares with is the
volume-weighted mean of all ticks since the last `reset_vwap`, of whatever symbol. So every BUY is
emitted at a price more than 0.2% under that mean, and under some price of the session, and every
SELL more than 0.5% above it, and above some price of the session (`orders_offMean`).
-/

namespace TradingTerminal

open Lib

namespace VWAPStrategy

def handle (s : VWAPStrategy) : StrategyEvent → VWAPStrategy
  | .tick tick _ => (s.generateSignal tick).2
  | .filled order => s.onOrderFilled order
  | .rejected order => s.onOrderRejected order
  | .resetVwap _ => s.resetVwap

/-- The ticks since the last reset that count, those of a positive volume. -/
def session (events : List StrategyEvent) : List Tick :=
  run (fun ticks event =>
    match event with
    | .tick tick _ => if tick.volume > 0 then ticks ++ [tick] else ticks
    | .resetVwap _ => []
    | _ => ticks) [] events

theorem session_tick (events : List StrategyEvent) (tick : Tick) (now : UInt64) :
    session (events ++ [.tick tick now]) =
      if tick.volume > 0 then session events ++ [tick] else session events :=
  run_concat _ _ _ _

theorem session_volume (events : List StrategyEvent) : ∀ t ∈ session events, 0 < t.volume := by
  induction events using List.reverseRecOn with
  | nil => simp [session]
  | append_singleton events event ih =>
    rw [session, run_concat]
    cases event with
    | tick tick now =>
      dsimp only
      split
      · next hvolume =>
        intro t ht
        rcases List.mem_append.1 ht with ht | ht
        · exact ih t ht
        · rw [List.mem_singleton.1 ht]
          exact hvolume
      · exact ih
    | filled order => exact ih
    | rejected order => exact ih
    | resetVwap symbol => simp

/-- The sums of a session, and the constants of the strategy. -/
structure Sums (size : ℚ) (s : VWAPStrategy) (ticks : List Tick) : Prop where
  cumulativePv : s.vwapData.cumulativePv = (ticks.map fun t => t.price * t.volume).sum
  cumulativeV : s.vwapData.cumulativeV = (ticks.map Tick.volume).sum
  positionSize : s.positionSize = size
  entryThreshold : s.entryThreshold = -2 / 1000
  exitThreshold : s.exitThreshold = 5 / 1000

namespace Sums

variable {size : ℚ} {s : VWAPStrategy} {ticks : List Tick}

theorem recordTick (h : Sums size s ticks) (tick : Tick) :
    Sums size (s.recordTick tick) (if tick.volume > 0 then ticks ++ [tick] else ticks) := by
  refine ⟨?_, ?_, h.positionSize, h.entryThreshold, h.exitThreshold⟩
  · unfold VWAPStrategy.recordTick VWAPData.update
    dsimp only
    split <;> simp [h.cumulativePv]
  · unfold VWAPStrategy.recordTick VWAPData.update
    dsimp only
    split <;> simp [h.cumulativeV]

/-- What a signal changes besides the record of its tick are flags and the profit. -/
theorem generateSignal (h : Sums size s ticks) (tick : Tick) :
    Sums size (s.generateSignal tick).2 (if tick.volume > 0 then ticks ++ [tick] else ticks) := by
  obtain ⟨hpv, hv, hsize, hentry, hexit⟩ := h.recordTick tick
  unfold VWAPStrategy.generateSignal
  dsimp only
  split
  · exact ⟨hpv, hv, hsize, hentry, hexit⟩
  · split
    · exact ⟨hpv, hv, hsize, hentry, hexit⟩
    · split <;> exact ⟨hpv, hv, hsize, hentry, hexit⟩

theorem run_handle (size : ℚ) (events : List StrategyEvent) :
    Sums size (run handle (new size) events) (session events) := by
  induction events using List.reverseRecOn with
  | nil => exact ⟨rfl, rfl, rfl, rfl, rfl⟩
  | append_singleton events event ih =>
    rw [run_concat, session, run_concat]
    cases event with
    | tick tick now => exact ih.generateSignal tick
    | filled order =>
      obtain ⟨hpv, hv, hsize, hentry, hexit⟩ := ih
      unfold handle onOrderFilled
      dsimp only
      split <;> exact ⟨hpv, hv, hsize, hentry, hexit⟩
    | rejected order =>
      obtain ⟨hpv, hv, hsize, hentry, hexit⟩ := ih
      unfold handle onOrderRejected
      dsimp only
      split <;> exact ⟨hpv, hv, hsize, hentry, hexit⟩
    | resetVwap symbol => exact ⟨rfl, rfl, ih.positionSize, ih.entryThreshold, ih.exitThreshold⟩

/-- The average that a tick is compared with. -/
theorem vwap (h : Sums size s ticks) (tick : Tick) (hvolume : ∀ t ∈ ticks, 0 < t.volume) :
    (s.recordTick tick).vwapData.vwap =
      if (if tick.volume > 0 then ticks ++ [tick] else ticks) = [] then 0
      else
        weightedMean Tick.price Tick.volume (if tick.volume > 0 then ticks ++ [tick] else ticks) := by
  obtain ⟨hpv, hv, -, -, -⟩ := h.recordTick tick
  have hmean : (s.recordTick tick).vwapData.vwap =
      if (s.recordTick tick).vwapData.cumulativeV > 0 then
        (s.recordTick tick).vwapData.cumulativePv / (s.recordTick tick).vwapData.cumulativeV
      else 0 := rfl
  rw [hmean, hpv, hv]
  generalize hticks : (if tick.volume > 0 then ticks ++ [tick] else ticks) = all
  have hall : ∀ t ∈ all, 0 < t.volume := by
    rw [← hticks]
    split
    · next hpos =>
      intro t ht
      rcases List.mem_append.1 ht with ht | ht
      · exact hvolume t ht
      · rw [List.mem_singleton.1 ht]
        exact hpos
    · exact hvolume
  by_cases hnil : all = []
  · rw [if_pos hnil, hnil]
    rfl
  · rw [if_neg hnil, if_pos (sum_weight_pos hall hnil)]
    rfl

end Sums

/-- **Against the mean.** After any events, if the prices of the session are positive, an order
emitted on a tick is of the position size; a BUY is emitted at a price more than 0.2% under the mean
of the session with this tick, and as far under one of its prices; a SELL at one more than 0.5%
above both. -/
theorem orders_offMean (size : ℚ) (events : List StrategyEvent) (tick : Tick) (now : UInt64)
    (hprices : ∀ t ∈ session (events ++ [.tick tick now]), 0 < t.price) :
    let s := run handle (new size) events
    let ticks := session (events ++ [.tick tick now])
    let mean := weightedMean Tick.price Tick.volume ticks
    ∀ order ∈ (s.generateSignal tick).1.orders, order.quantity = size ∧
      (order.isBuy = true →
        tick.price < 998 / 1000 * mean ∧ ∃ t ∈ ticks, tick.price < 998 / 1000 * t.price) ∧
      (order.isBuy = false →
        1005 / 1000 * mean < tick.price ∧ ∃ t ∈ ticks, 1005 / 1000 * t.price < tick.price) := by
  intro s ticks mean order horder
  have hsums := Sums.run_handle size events
  have hvolume : ∀ t ∈ ticks, 0 < t.volume := session_volume _
  have hvwap := hsums.vwap tick (session_volume events)
  rw [← session_tick events tick now] at hvwap
  by_cases hnil : ticks = []
  · rw [if_pos hnil] at hvwap
    have hnone : (s.generateSignal tick).1.orders = [] := by
      unfold generateSignal
      dsimp only
      rw [if_pos hvwap]
    rw [hnone] at horder
    cases horder
  rw [if_neg hnil] at hvwap
  have hmean : 0 < mean := mean_pos hvolume hprices hnil
  have hratio : (s.recordTick tick).priceVwapRatio tick.price = (tick.price - mean) / mean := by
    rw [priceVwapRatio, hvwap]
  have hrecorded := hsums.recordTick tick
  obtain ⟨low, hlow, hlowPrice⟩ : ∃ t ∈ ticks, t.price ≤ mean := exists_value_le_mean hvolume hnil
  obtain ⟨high, hhigh, hhighPrice⟩ : ∃ t ∈ ticks, mean ≤ t.price := exists_mean_le_value hvolume hnil
  unfold generateSignal at horder
  dsimp only at horder
  rw [if_neg (hvwap ▸ hmean.ne')] at horder
  split at horder
  · next hexit =>
    have habove := hexit.2.2
    rw [hratio, hrecorded.exitThreshold, gt_iff_lt, lt_div_iff₀ hmean] at habove
    rw [List.mem_singleton.1 horder]
    refine ⟨hrecorded.positionSize, by simp [limitOrder], fun _ => ⟨by linarith, low, hlow, ?_⟩⟩
    linarith
  · split at horder
    · next hentry =>
      have hbelow := hentry.2.2
      rw [hratio, hrecorded.entryThreshold, div_lt_iff₀ hmean] at hbelow
      rw [List.mem_singleton.1 horder]
      refine ⟨hrecorded.positionSize, fun _ => ⟨by linarith, high, hhigh, ?_⟩, by simp [limitOrder]⟩
      linarith
    · cases horder

/-- A tick of one symbol, and one of another at half its price. -/
def twoSymbols : List StrategyEvent := [.tick { symbol := "AAPL", price := 100, volume := 10 } 0]

/-- The cheaper symbol is bought, since the mean is over both. -/
theorem twoSymbols_bought :
    let cheap : Tick := { symbol := "MSFT", price := 50, volume := 10, ask := 51 }
    ((run handle (new 3) twoSymbols).generateSignal cheap).1.orders =
        [limitOrder "MSFT" 51 3 true] ∧
      cheap.price < 998 / 1000 *
        weightedMean Tick.price Tick.volume (session (twoSymbols ++ [.tick cheap 1])) := by
  intro cheap
  have horders : ((run handle (new 3) twoSymbols).generateSignal cheap).1.orders =
      [limitOrder "MSFT" 51 3 true] := by
    decide +kernel
  have hprices : ∀ t ∈ session (twoSymbols ++ [.tick cheap 1]), 0 < t.price := by decide +kernel
  refine ⟨horders, ?_⟩
  exact ((orders_offMean 3 twoSymbols cheap 1 hprices (limitOrder "MSFT" 51 3 true)
    (by rw [horders]; exact List.mem_singleton_self _)).2.1 rfl).1

end VWAPStrategy

end TradingTerminal
