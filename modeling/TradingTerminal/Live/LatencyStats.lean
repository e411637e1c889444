import TradingTerminal.Live.OrderPath
import TradingTerminal.Lib.Numeral
import TradingTerminal.Lib.Samples

/-!
# The latency statistics

The tick callback of `main.cpp` and the processor of the order manager each add every latency they
measure to a total and raise a maximum, but count only the turns with a valid signal, and only the
orders that the exchange accepted. `print_performance_stats` and `print_metrics` divide the one by
the other. What they print as average stays below the maximum exactly if the latencies that were not
counted are made up for (`reports_iff_covered`).

An input is the start of a tick callback, the turn of one strategy in it, or a pass of the
processor, which may come between any two turns. Signals and latencies come with the input. The
64-bit counters of the order manager are natural numbers until they are printed, and its average is
exact until it is rounded to a tenth.
-/

namespace TradingTerminal

open Lib

/-- A turn of a strategy in the tick callback: the signal it generated, the latency measured at its
end, and what `process_signal` reads. -/
structure MeasuredTurn where
  signal : Signal
  latency : UInt64
  now : TimePoint
  balance : Nat → ℚ
  timestamp : UInt64

inductive TickLoopInput where
  | tick
  | turn (turn : MeasuredTurn)
  | process (answer : String) (latency : UInt64)

/-- The counters of `main.cpp` and the order path, with two logs that the program does not keep. -/
structure TickLoop where
  path : OrderPath
  tickCount : UInt64 := 0
  signalCount : UInt64 := 0
  totalLatencyUs : UInt64 := 0
  maxLatencyUs : UInt64 := 0
  /-- the latencies of the turns; a turn with a valid signal is counted -/
  turns : List Sample := []
  /-- the latencies of the calls of `place_order`; an accepted order is counted -/
  calls : List Sample := []

namespace TickLoop

def start (limits : Limits) (breaker : CircuitBreaker) : TickLoop :=
  { path := .fresh limits breaker }

def turn (d : RiskDecision) (s : TickLoop) (t : MeasuredTurn) : TickLoop :=
  let s := { s with
    totalLatencyUs := s.totalLatencyUs + t.latency
    -- the compare-and-swap loop
    maxLatencyUs := if t.latency > s.maxLatencyUs then t.latency else s.maxLatencyUs
    turns := s.turns ++ [{ value := t.latency.toNat, counted := t.signal.valid }] }
  if t.signal.valid then
    { s with
      signalCount := s.signalCount + 1
      path := s.path.step d (.signal t.signal t.now t.balance t.timestamp) }
  else s

def step (d : RiskDecision) (s : TickLoop) : TickLoopInput → TickLoop
  | .tick => { s with tickCount := s.tickCount + 1 }
  | .turn t => s.turn d t
  | .process answer latency =>
    { s with
      path := s.path.step d (.process answer latency.toNat)
      calls :=
        if s.path.manager.nextOrder.isSome then
          s.calls ++ [{ value := latency.toNat, counted := answer ≠ "" }]
        else s.calls }

end TickLoop

/-- What `print_performance_stats` prints; the rates are before they are rounded to integers. -/
structure PerformanceStats where
  ticksProcessed : UInt64
  signalsGenerated : UInt64
  ticksPerSec : ℚ
  signalsPerSec : ℚ
  maxLatency : UInt64
  avgLatency : UInt64

def TickLoop.printPerformanceStats (s : TickLoop) (elapsed : Int) : PerformanceStats :=
  { ticksProcessed := s.tickCount
    signalsGenerated := s.signalCount
    ticksPerSec := if elapsed > 0 then s.tickCount.toNat / elapsed else 0
    signalsPerSec := if elapsed > 0 then s.signalCount.toNat / elapsed else 0
    maxLatency := s.maxLatencyUs
    avgLatency := if s.signalCount > 0 then s.totalLatencyUs / s.signalCount else 0 }

/-- What `print_metrics` prints; the fill rate and the average are texts with one decimal, rounded from
exact quotients. -/
structure Metrics where
  totalOrders : UInt64
  filled : UInt64
  rejected : UInt64
  fillRate : List Char
  avgLatency : List Char
  maxLatency : UInt64

def OrderManager.printMetrics (om : OrderManager) : Metrics :=
  let filled := UInt64.ofNat om.filledOrders
  let total := UInt64.ofNat om.totalOrders
  let fillRate : ℚ := if total > 0 then filled.toNat / total.toNat * 100 else 0
  let avgLatency : ℚ :=
    if filled > 0 then (UInt64.ofNat om.totalLatencyUs).toNat / filled.toNat else 0
  { totalOrders := total
    filled
    rejected := UInt64.ofNat om.rejectedOrders
    fillRate := toFixed 1 fillRate
    avgLatency := toFixed 1 avgLatency
    maxLatency := UInt64.ofNat om.maxLatencyUs }

/-! ## What the counters hold -/

namespace OrderManager

/-- A signal measures nothing. -/
theorem processSignal_latency (d : RiskDecision) (om : OrderManager) (signal : Signal)
    (now : TimePoint) (balance : Nat → ℚ) (timestamp : UInt64) :
    (om.processSignal d signal now balance timestamp).totalLatencyUs = om.totalLatencyUs ∧
      (om.processSignal d signal now balance timestamp).maxLatencyUs = om.maxLatencyUs := by
  unfold processSignal
  split
  · exact ⟨rfl, rfl⟩
  · dsimp only
    split
    · exact ⟨rfl, rfl⟩
    · refine submitOrders_induction (P := fun om' =>
        om'.totalLatencyUs = om.totalLatencyUs ∧ om'.maxLatencyUs = om.maxLatencyUs) ⟨rfl, rfl⟩ ?_
      intro om' order cash _ h
      unfold submitOrder
      dsimp only
      split <;> exact h

/-- What a pass over an order measures and counts. -/
structure Measured (om : OrderManager) (orderId : String) (latency : Nat) (om' : OrderManager) :
    Prop where
  totalLatencyUs : om'.totalLatencyUs = om.totalLatencyUs + latency
  maxLatencyUs : om'.maxLatencyUs = max om.maxLatencyUs latency
  filledOrders : om'.filledOrders = om.filledOrders + if orderId ≠ "" then 1 else 0

theorem processOrder_measured (om : OrderManager) (h : om.nextOrder.isSome = true)
    (orderId : String) (latency : Nat) :
    Measured om orderId latency (om.processOrder orderId latency) := by
  obtain ⟨order, horder⟩ := Option.isSome_iff_exists.1 h
  obtain ⟨hr, pending, rest, hq, -⟩ := nextOrder_eq_some.1 horder
  rw [processOrder_cons hq hr]
  unfold settle
  by_cases hid : orderId = "" <;> exact ⟨by simp [hid], by simp [hid], by simp [hid]⟩

/-- The printed average is the quotient of the two counters, rounded to a tenth. -/
theorem strtod_avgLatency (om : OrderManager) :
    strtod om.printMetrics.avgLatency =
      some ((roundHalfEven (((UInt64.ofNat om.totalLatencyUs).toNat : ℚ) /
        (UInt64.ofNat om.filledOrders).toNat * 10 ^ 1) : ℚ) / 10 ^ 1) := by
  unfold printMetrics
  dsimp only
  split
  · exact strtod_toFixed_rounded 1 (by positivity)
  · rename_i hzero
    have hfilled : UInt64.ofNat om.filledOrders = 0 := UInt64.le_zero_iff.1 (UInt64.not_lt.1 hzero)
    rw [hfilled, UInt64.toNat_zero, Nat.cast_zero, div_zero]
    exact strtod_toFixed_rounded 1 le_rfl

end OrderManager

namespace TickLoop

/-- Two counters modulo `2 ^ 64` and a maximum next to the samples they were advanced over. -/
structure Tracks (total count maximum : UInt64) (xs : List Sample) : Prop where
  total_eq : total.toNat = Sample.total xs % 2 ^ 64
  count_eq : count.toNat = Sample.count xs % 2 ^ 64
  largest_eq : maximum.toNat = Sample.largest xs

/-- The counters of the callback track the turns, those of the order manager the calls. -/
structure Recorded (s : TickLoop) : Prop where
  turns : Tracks s.totalLatencyUs s.signalCount s.maxLatencyUs s.turns
  totalLatencyUs : s.path.manager.totalLatencyUs = Sample.total s.calls
  filledOrders : s.path.manager.filledOrders = Sample.count s.calls
  maxLatencyUs : s.path.manager.maxLatencyUs = Sample.largest s.calls
  largest_lt : Sample.largest s.calls < 2 ^ 64

theorem recorded_start (limits : Limits) (breaker : CircuitBreaker) :
    Recorded (start limits breaker) :=
  ⟨⟨rfl, rfl, rfl⟩, rfl, rfl, rfl, Nat.two_pow_pos 64⟩

theorem Tracks.measure {total count maximum : UInt64} {xs : List Sample}
    (h : Tracks total count maximum xs) (latency : UInt64) (counted : Bool) :
    Tracks (total + latency) (if counted then count + 1 else count)
      (if latency > maximum then latency else maximum)
      (xs ++ [{ value := latency.toNat, counted }]) where
  total_eq := by
    rw [UInt64.toNat_add, h.total_eq, Sample.total_concat, Nat.mod_add_mod]
  count_eq := by
    have h1 : (1 : UInt64).toNat = 1 := rfl
    rw [Sample.count_concat]
    cases counted with
    | false => exact h.count_eq
    | true => rw [if_pos rfl, UInt64.toNat_add, h.count_eq, h1, Nat.mod_add_mod, if_pos rfl]
  largest_eq := by
    rw [Sample.largest_concat, ← h.largest_eq]
    split
    · rename_i hlt
      exact (max_eq_right (UInt64.lt_iff_toNat_lt.1 hlt).le).symm
    · rename_i hle
      exact (max_eq_left (UInt64.le_iff_toNat_le.1 (UInt64.not_lt.1 hle))).symm

theorem Recorded.turn {s : TickLoop} (h : Recorded s) (d : RiskDecision) (t : MeasuredTurn) :
    Recorded (s.turn d t) := by
  have hmeasure := h.turns.measure t.latency t.signal.valid
  unfold TickLoop.turn
  dsimp only
  cases hv : t.signal.valid with
  | false =>
    rw [hv] at hmeasure
    exact ⟨hmeasure, h.totalLatencyUs, h.filledOrders, h.maxLatencyUs, h.largest_lt⟩
  | true =>
    rw [hv] at hmeasure
    obtain ⟨htotal, hmax⟩ := s.path.manager.processSignal_latency d t.signal t.now t.balance
      t.timestamp
    have hframe := s.path.manager.processSignal_frame d t.signal t.now t.balance t.timestamp
    exact ⟨hmeasure, htotal.trans h.totalLatencyUs, hframe.filledOrders.trans h.filledOrders,
      hmax.trans h.maxLatencyUs, h.largest_lt⟩

theorem Recorded.process {s : TickLoop} (h : Recorded s) (d : RiskDecision) (answer : String)
    (latency : UInt64) : Recorded (s.step d (.process answer latency)) := by
  cases hnext : s.path.manager.nextOrder with
  | none =>
    simpa only [step, OrderPath.step, hnext, Option.isSome_none, Bool.false_eq_true, ite_false]
      using h
  | some order =>
    have hmeasured := s.path.manager.processOrder_measured
      (by rw [hnext]; rfl) answer latency.toNat
    simp only [step, OrderPath.step, hnext, Option.isSome_some, ite_true]
    refine ⟨h.turns, ?_, ?_, ?_, ?_⟩
    · rw [hmeasured.totalLatencyUs, h.totalLatencyUs, Sample.total_concat]
    · rw [hmeasured.filledOrders, h.filledOrders, Sample.count_concat]
      simp only [decide_eq_true_eq]
    · rw [hmeasured.maxLatencyUs, h.maxLatencyUs, Sample.largest_concat]
    · rw [Sample.largest_concat]
      exact max_lt h.largest_lt latency.toNat_lt

theorem Recorded.step {s : TickLoop} (h : Recorded s) (d : RiskDecision) (x : TickLoopInput) :
    Recorded (s.step d x) := by
  cases x with
  | tick => exact ⟨h.turns, h.totalLatencyUs, h.filledOrders, h.maxLatencyUs, h.largest_lt⟩
  | turn t => exact h.turn d t
  | process answer latency => exact h.process d answer latency

theorem recorded_run (d : RiskDecision) (limits : Limits) (breaker : CircuitBreaker)
    (inputs : List TickLoopInput) : Recorded (run (step d) (start limits breaker) inputs) :=
  run_invariant (fun _ x h => h.step d x) (recorded_start limits breaker) inputs

/-! ## The averages -/

/-- An average is at most the maximum printed with it, and that is the largest latency measured. -/
structure Sound (xs : List Sample) (average : ℚ) (maximum : UInt64) : Prop where
  average_le : average ≤ maximum.toNat
  bound : ∀ x ∈ xs, x.value ≤ maximum.toNat
  attained : xs ≠ [] → ∃ x ∈ xs, x.value = maximum.toNat

/-- What is printed at the end of a run: `elapsed` seconds, and the average of the order manager as
it reads. -/
structure Reports (s : TickLoop) (elapsed : Int) : Prop where
  stats : Sound s.turns (s.printPerformanceStats elapsed).avgLatency.toNat
    (s.printPerformanceStats elapsed).maxLatency
  metrics : ∃ average ∈ strtod s.path.manager.printMetrics.avgLatency,
    Sound s.calls average s.path.manager.printMetrics.maxLatency

theorem sound_iff {xs : List Sample} {average : ℚ} {maximum : UInt64}
    (h : maximum.toNat = Sample.largest xs) :
    Sound xs average maximum ↔ average ≤ Sample.largest xs := by
  constructor
  · intro hsound
    exact h ▸ hsound.average_le
  · intro hle
    refine ⟨h ▸ hle, fun x hx => h ▸ Sample.le_largest hx, fun hne => ?_⟩
    exact h ▸ Sample.exists_eq_largest hne

/-- The latencies of the turns without a valid signal add up to less than what the others fall short
of the largest, and one more for each of them; what the 64-bit counters have lost is put back. -/
def StatsCovered (xs : List Sample) : Prop :=
  Sample.count xs % 2 ^ 64 = 0 ∨
    Sample.uncounted xs + (Sample.largest xs + 1) * Sample.lost (2 ^ 64) (Sample.count xs) <
      Sample.shortfall (Sample.largest xs) xs + Sample.count xs +
        Sample.lost (2 ^ 64) (Sample.total xs)

/-- The same for the refused orders, where the average is printed to the nearest tenth. A quotient that
exceeds the maximum by exactly a twentieth is a tie and printed as the maximum; the source's double of
such a quotient is none, and may be printed as the next tenth. -/
def MetricsCovered (xs : List Sample) : Prop :=
  Sample.count xs % 2 ^ 64 = 0 ∨
    20 * Sample.uncounted xs +
        (20 * Sample.largest xs + 1) * Sample.lost (2 ^ 64) (Sample.count xs) ≤
      20 * Sample.shortfall (Sample.largest xs) xs + Sample.count xs +
        20 * Sample.lost (2 ^ 64) (Sample.total xs)

theorem stats_iff {s : TickLoop} (h : Recorded s) (elapsed : Int) :
    Sound s.turns (s.printPerformanceStats elapsed).avgLatency.toNat
      (s.printPerformanceStats elapsed).maxLatency ↔ StatsCovered s.turns := by
  have havg : (s.printPerformanceStats elapsed).avgLatency.toNat =
      Sample.total s.turns % 2 ^ 64 / (Sample.count s.turns % 2 ^ 64) := by
    rw [← h.turns.total_eq, ← h.turns.count_eq, ← UInt64.toNat_div]
    unfold printPerformanceStats
    dsimp only
    split
    · rfl
    · rename_i hzero
      have hcount : s.signalCount = 0 := UInt64.le_zero_iff.1 (UInt64.not_lt.1 hzero)
      rw [hcount, UInt64.div_zero]
  refine (sound_iff h.turns.largest_eq).trans ?_
  rw [havg, Nat.cast_le]
  exact Sample.div_le_largest_iff (2 ^ 64) s.turns

/-- The number printed for a quotient, against a whole number. -/
theorem printed_le_iff {n c m : Nat} (hc : 0 < c) :
    (roundHalfEven ((n : ℚ) / c * 10 ^ 1) : ℚ) / 10 ^ 1 ≤ m ↔ 20 * n ≤ (20 * m + 1) * c := by
  have hc' : (0 : ℚ) < c := by exact_mod_cast hc
  have heven : (10 * (m : Int)) % 2 = 0 := by omega
  have hround := roundHalfEven_le_even_iff (q := (n : ℚ) / c * 10 ^ 1) heven
  calc
    _ ↔ roundHalfEven ((n : ℚ) / c * 10 ^ 1) ≤ 10 * (m : Int) := by
      have hscale : (m : ℚ) * 10 ^ 1 = ((10 * (m : Int) : Int) : ℚ) := by
        push_cast
        ring
      rw [div_le_iff₀ (by norm_num), hscale, Int.cast_le]
    _ ↔ (n : ℚ) / c * 10 ^ 1 ≤ ((10 * (m : Int) : Int) : ℚ) + 1 / 2 := hround
    _ ↔ (n : ℚ) / c ≤ (20 * m + 1) / 20 := by
      push_cast
      constructor <;> intro h <;> linarith
    _ ↔ (20 * n : ℚ) ≤ (20 * m + 1) * c := by
      rw [div_le_iff₀ hc']
      constructor <;> intro h <;> linarith
    _ ↔ _ := by norm_cast

theorem metrics_iff {s : TickLoop} (h : Recorded s) :
    (∃ average ∈ strtod s.path.manager.printMetrics.avgLatency,
      Sound s.calls average s.path.manager.printMetrics.maxLatency) ↔ MetricsCovered s.calls := by
  have hmax : s.path.manager.printMetrics.maxLatency.toNat = Sample.largest s.calls := by
    show (UInt64.ofNat s.path.manager.maxLatencyUs).toNat = _
    rw [h.maxLatencyUs, UInt64.toNat_ofNat_of_lt' h.largest_lt]
  have hcount : (UInt64.ofNat s.path.manager.filledOrders).toNat =
      Sample.count s.calls % 2 ^ 64 := by
    rw [h.filledOrders, UInt64.toNat_ofNat']
  have htotal : (UInt64.ofNat s.path.manager.totalLatencyUs).toNat =
      Sample.total s.calls % 2 ^ 64 := by
    rw [h.totalLatencyUs, UInt64.toNat_ofNat']
  have hadd := Sample.scaled_total_add (2 ^ 64) 20 1 s.calls
  rw [OrderManager.strtod_avgLatency, hcount, htotal]
  simp only [Option.mem_some_iff, exists_eq_left', sound_iff hmax]
  unfold MetricsCovered
  rcases Nat.eq_zero_or_pos (Sample.count s.calls % 2 ^ 64) with h0 | hpos
  · -- nothing was accepted, and zero is printed
    rw [h0, Nat.cast_zero, div_zero, zero_mul]
    have hzero := roundHalfEven_intCast 0
    rw [Int.cast_zero] at hzero
    simp [hzero]
  · rw [printed_le_iff hpos]
    simp only [Nat.ne_of_gt hpos, false_or, Nat.one_mul] at hadd ⊢
    omega

/-- **Average and maximum latency.** At the end of every run of the tick callback and the order
manager both averages are at most the maximum printed with them exactly if, in each of the two, the
latencies that are summed without being counted are made up for. -/
theorem reports_iff_covered (d : RiskDecision) (limits : Limits) (breaker : CircuitBreaker)
    (inputs : List TickLoopInput) (elapsed : Int) :
    Reports (run (step d) (start limits breaker) inputs) elapsed ↔
      StatsCovered (run (step d) (start limits breaker) inputs).turns ∧
        MetricsCovered (run (step d) (start limits breaker) inputs).calls := by
  have hrec := recorded_run d limits breaker inputs
  constructor
  · intro h
    exact ⟨(stats_iff hrec elapsed).1 h.stats, (metrics_iff hrec).1 h.metrics⟩
  · rintro ⟨hstats, hmetrics⟩
    exact ⟨(stats_iff hrec elapsed).2 hstats, (metrics_iff hrec).2 hmetrics⟩

/-- A tick on which the first strategy is silent and the second buys twice, every step taking ten
microseconds: the exchange refuses the first order and accepts the second. -/
def halfCounted : List TickLoopInput :=
  let turn (signal : Signal) : MeasuredTurn :=
    { signal, latency := 10, now := 0, balance := fun _ => 100000, timestamp := 0 }
  let buy : Order := { symbol := "AAPL", price := 100, quantity := 5 }
  [.tick, .turn (turn {}), .turn (turn { symbol := "AAPL", orders := [buy, buy], valid := true }),
    .process "" 10, .process "id" 10]

/-- Both averages come out as twenty microseconds, above the maximum of ten. -/
theorem halfCounted_not_reports :
    let s := run (step RiskManager.canSubmitOrder) (start {} (.new 100000 0)) halfCounted
    (s.printPerformanceStats 1).avgLatency = 20 ∧ (s.printPerformanceStats 1).maxLatency = 10 ∧
      s.path.manager.printMetrics.avgLatency = "20.0".toList ∧
        s.path.manager.printMetrics.maxLatency = 10 ∧ ¬ Reports s 1 := by
  intro s
  have havg : (s.printPerformanceStats 1).avgLatency = 20 := by decide +kernel
  have hmax : (s.printPerformanceStats 1).maxLatency = 10 := by decide +kernel
  refine ⟨havg, hmax, by decide +kernel, by decide +kernel, fun h => ?_⟩
  have hle := h.stats.average_le
  rw [havg, hmax] at hle
  exact absurd hle (by decide)

end TickLoop

end TradingTerminal
