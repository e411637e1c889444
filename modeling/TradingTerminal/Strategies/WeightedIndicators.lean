import TradingTerminal.Strategies.WeightedRuns
import Mathlib.Tactic.FieldSimp

/-!
# The VWAP and the averages of the weighted strategy

What the stored sums and averages of a symbol are, read off the history of its ticks. Ticks enter the
VWAP sums only once the strategy is warm for the symbol, so the ticks of the warm-up are missing from
the session (`sessionVwap_iff`). The mean of fifty prices is zero until fifty prices were seen, so
that in between every positive mean of twenty is above it (`crossover_iff`).
-/

namespace TradingTerminal

open Lib

/-! ## Sessions -/

/-- The ticks of a symbol since its first one or its latest `reset_vwap`. -/
def sessionOf (symbol : String) (events : List WeightedEvent) : List Tick :=
  events.foldl (fun session event =>
    match event with
    | .tick tick _ => if tick.symbol = symbol then session ++ [tick] else session
    | .resetVwap y => if y = symbol then [] else session
    | _ => session) []

/-- The volume of the ticks that have one. -/
def volumeOf (ticks : List Tick) : ℚ := ((ticks.filter (·.volume > 0)).map (·.volume)).sum

/-- Price times volume, over the ticks that have a volume. -/
def turnoverOf (ticks : List Tick) : ℚ :=
  ((ticks.filter (·.volume > 0)).map fun tick => tick.price * tick.volume).sum

/-- How many ticks of the session belong to the twenty-nine that pass before a symbol is scored. -/
def warmUpLeft (ticks session : List Tick) : Nat := 29 - (ticks.length - session.length)

theorem volumeOf_append (ticks ticks' : List Tick) :
    volumeOf (ticks ++ ticks') = volumeOf ticks + volumeOf ticks' := by
  rw [volumeOf, List.filter_append, List.map_append, List.sum_append]
  rfl

theorem turnoverOf_append (ticks ticks' : List Tick) :
    turnoverOf (ticks ++ ticks') = turnoverOf ticks + turnoverOf ticks' := by
  rw [turnoverOf, List.filter_append, List.map_append, List.sum_append]
  rfl

theorem volumeOf_singleton (tick : Tick) :
    volumeOf [tick] = if tick.volume > 0 then tick.volume else 0 := by
  by_cases h : tick.volume > 0 <;> simp [volumeOf, h]

theorem turnoverOf_singleton (tick : Tick) :
    turnoverOf [tick] = if tick.volume > 0 then tick.price * tick.volume else 0 := by
  by_cases h : tick.volume > 0 <;> simp [turnoverOf, h]

theorem volumeOf_nonneg (ticks : List Tick) : 0 ≤ volumeOf ticks := by
  refine List.sum_nonneg fun v hv => ?_
  obtain ⟨tick, htick, rfl⟩ := List.mem_map.1 hv
  exact (of_decide_eq_true (List.mem_filter.1 htick).2 : tick.volume > 0).le

/-- With positive prices there is a turnover exactly where there is a volume. -/
theorem turnoverOf_pos {ticks : List Tick} (hprices : ∀ tick ∈ ticks, 0 < tick.price) :
    (0 < volumeOf ticks → 0 < turnoverOf ticks) ∧ (volumeOf ticks = 0 → turnoverOf ticks = 0) := by
  have hterms : ∀ tick ∈ ticks.filter (·.volume > 0),
      0 < tick.volume ∧ 0 < tick.price * tick.volume := by
    intro tick htick
    have hvolume : 0 < tick.volume := of_decide_eq_true (List.mem_filter.1 htick).2
    exact ⟨hvolume, mul_pos (hprices tick (List.mem_filter.1 htick).1) hvolume⟩
  unfold volumeOf turnoverOf
  generalize ticks.filter (·.volume > 0) = traded at hterms
  cases traded with
  | nil => simp
  | cons tick traded =>
    have hvolume : 0 < (((tick :: traded).map (·.volume)).sum : ℚ) :=
      List.sum_pos _ (fun v hv => by
        obtain ⟨t, ht, rfl⟩ := List.mem_map.1 hv
        exact (hterms t ht).1) (by simp)
    have hturnover : 0 < (((tick :: traded).map fun t => t.price * t.volume).sum : ℚ) :=
      List.sum_pos _ (fun v hv => by
        obtain ⟨t, ht, rfl⟩ := List.mem_map.1 hv
        exact (hterms t ht).2) (by simp)
    exact ⟨fun _ => hturnover, fun hzero => absurd hzero hvolume.ne'⟩

namespace WeightedStrategy

/-! ## The volume-weighted average price -/

/-- The sums of a symbol: over the ticks of the session that came after the warm-up. -/
structure VwapOf (ticks session : List Tick) (data : SignalData) : Prop extends
    WindowOf ticks data where
  within : session.length ≤ ticks.length
  turnover : data.cumulativePv = turnoverOf (session.drop (warmUpLeft ticks session))
  volume : data.cumulativeV = volumeOf (session.drop (warmUpLeft ticks session))
  vwap : data.vwap = data.cumulativePv / data.cumulativeV

variable {ticks session : List Tick} {data : SignalData}

theorem warmUpLeft_concat (ticks session : List Tick) (tick : Tick) :
    warmUpLeft (ticks ++ [tick]) (session ++ [tick]) = warmUpLeft ticks session := by
  simp only [warmUpLeft, List.length_append, List.length_singleton, Nat.add_sub_add_right]

/-- A tick of the warm-up is not counted. -/
theorem VwapOf.recordTick (h : VwapOf ticks session data) (tick : Tick)
    (hshort : ticks.length < 29) :
    VwapOf (ticks ++ [tick]) (session ++ [tick]) (data.recordTick tick) := by
  have hwithin := h.within
  have hleft : session.length + 1 ≤ warmUpLeft ticks session := by
    unfold warmUpLeft
    omega
  have hnone : session.drop (warmUpLeft ticks session) = [] :=
    List.drop_eq_nil_of_le (by omega)
  have hnone' : (session ++ [tick]).drop (warmUpLeft ticks session) = [] :=
    List.drop_eq_nil_of_le (by simpa using hleft)
  refine ⟨h.toWindowOf.recordTick tick, by simpa using h.within, ?_, ?_, h.vwap⟩
  · rw [warmUpLeft_concat, hnone', ← hnone]
    exact h.turnover
  · rw [warmUpLeft_concat, hnone', ← hnone]
    exact h.volume

/-- Where nothing was counted the quotient is zero, and so is what is kept of it. -/
theorem quotient_step {pv v pv' v' vwap : ℚ} (hv : 0 ≤ v) (hv' : 0 ≤ v') (hvwap : vwap = pv / v) :
    (if v + v' > 0 then (pv + pv') / (v + v') else vwap) = (pv + pv') / (v + v') := by
  split
  · rfl
  · next hzero =>
    have hsum : v + v' = 0 := (not_lt.1 hzero).antisymm (add_nonneg hv hv')
    have hnone : v = 0 := by linarith
    rw [hvwap, hsum, hnone, div_zero, div_zero]

/-- A scored tick is counted. -/
theorem VwapOf.calculate (h : VwapOf ticks session data) (tick : Tick)
    (hlong : 29 ≤ ticks.length) :
    VwapOf (ticks ++ [tick]) (session ++ [tick]) ((data.recordTick tick).calculate tick) := by
  have hwithin := h.within
  have hcounted : (session ++ [tick]).drop (warmUpLeft ticks session) =
      session.drop (warmUpLeft ticks session) ++ [tick] := by
    refine List.drop_append_of_le_length ?_
    unfold warmUpLeft
    omega
  have hwindow := h.toWindowOf.recordTick tick
  have hlength : 20 ≤ (data.recordTick tick).prices.length := by
    rw [hwindow.length.1, List.length_append, List.length_singleton]
    omega
  have hindicators := calculate_indicators tick hwindow
    (by rw [List.length_append, List.length_singleton]; omega)
  rw [calculate_eq tick hlength (hwindow.length.2.symm ▸ hlength), calculateVwap_eq] at hindicators ⊢
  refine ⟨hindicators.toWindowOf, by simpa using h.within, ?_, ?_, ?_⟩
  · rw [warmUpLeft_concat, hcounted, turnoverOf_append, turnoverOf_singleton, ← h.turnover]
    rfl
  · rw [warmUpLeft_concat, hcounted, volumeOf_append, volumeOf_singleton, ← h.volume]
    rfl
  · have hold : 0 ≤ data.cumulativeV := h.volume ▸ volumeOf_nonneg _
    have hnew : (0 : ℚ) ≤ if tick.volume > 0 then tick.volume else 0 :=
      volumeOf_singleton tick ▸ volumeOf_nonneg [tick]
    exact quotient_step hold hnew h.vwap

theorem sessionOf_concat (symbol : String) (events : List WeightedEvent) (event : WeightedEvent) :
    sessionOf symbol (events ++ [event]) =
      match event with
      | .tick tick _ =>
        if tick.symbol = symbol then sessionOf symbol events ++ [tick] else sessionOf symbol events
      | .resetVwap y => if y = symbol then [] else sessionOf symbol events
      | _ => sessionOf symbol events :=
  List.foldl_concat ..

/-- **The sums of a run** are those of the counted ticks of the session. -/
theorem run_vwap {s : WeightedStrategy} (symbol : String) (hs : s.signalData symbol = {})
    (events : List WeightedEvent) :
    VwapOf (ticksOf symbol events) (sessionOf symbol events)
      ((run handle s events).signalData symbol) := by
  refine run_signalData
    (R := fun history data => VwapOf (ticksOf symbol history) (sessionOf symbol history) data)
    (H := fun _ => True) symbol ⟨⟨rfl, rfl, fun _ => rfl⟩, le_refl 0, rfl, rfl, (div_zero 0).symm⟩
    (fun _ _ _ h => ⟨⟨h.prices, h.volumes, h.sma50⟩, h.within, h.turnover, h.volume, h.vwap⟩)
    (fun s history data event _ h => ?_) hs events fun _ _ => trivial
  rw [ticksOf_concat, sessionOf_concat]
  cases event with
  | tick tick now =>
    by_cases hsymbol : tick.symbol = symbol
    · subst hsymbol
      have hlength := (h.toWindowOf.recordTick tick).length.1
      rw [List.length_append, List.length_singleton] at hlength
      rw [observe_tick_self, ticksOf_tick_self]
      simp only [if_true]
      split
      · exact h.recordTick tick (by omega)
      · have hcounted := h.calculate tick (by omega)
        exact ⟨⟨hcounted.prices, hcounted.volumes, hcounted.sma50⟩, hcounted.within,
          hcounted.turnover, hcounted.volume, hcounted.vwap⟩
    · rw [observe_tick_of_ne hsymbol, ticksOf_tick_of_ne hsymbol, List.append_nil]
      simp only [if_neg hsymbol]
      exact h
  | resetVwap y =>
    rw [observe, show ticksOf symbol [.resetVwap y] = [] from rfl, List.append_nil]
    dsimp only
    split
    · exact ⟨⟨h.prices, h.volumes, h.sma50⟩, Nat.zero_le _, by simp [turnoverOf], by simp [volumeOf],
        (div_zero 0).symm⟩
    · exact h
  | _ => exact (List.append_nil (ticksOf symbol history)).symm ▸ h

theorem vwapDistance_calculate (tick : Tick) (h : 0 < (data.calculate tick).cumulativeV) :
    (data.calculate tick).vwapDistance =
      (tick.price - (data.calculate tick).vwap) / (data.calculate tick).vwap := by
  unfold SignalData.calculate at h ⊢
  rw [calculateVwap_eq] at h ⊢
  dsimp only at h ⊢
  rw [if_pos h, if_pos h]

/-- The stored average is that of the session, and the distance is taken from it. -/
structure HasSessionVwap (s : WeightedStrategy) (session : List Tick) (tick : Tick) : Prop where
  vwap : (s.scoredData tick).vwap = turnoverOf session / volumeOf session
  distance : (s.scoredData tick).vwapDistance =
    (tick.price - (s.scoredData tick).vwap) / (s.scoredData tick).vwap

/-- The ticks of a session that are not counted have no volume, or the same average as those that
are. -/
def SkippedAlike (skipped counted : List Tick) : Prop :=
  volumeOf skipped = 0 ∨
    0 < volumeOf counted ∧
      turnoverOf skipped / volumeOf skipped = turnoverOf counted / volumeOf counted

/-- The average of two parts is that of the second exactly where the parts agree. -/
theorem quotient_add_iff {pv v pv' v' : ℚ} (hv : v = 0 → pv = 0) (hv0 : 0 ≤ v) (hv' : 0 < v') :
    pv' / v' = (pv + pv') / (v + v') ↔ v = 0 ∨ pv / v = pv' / v' := by
  rcases hv0.eq_or_lt with hzero | hpos
  · have hzero := hzero.symm
    rw [hzero, hv hzero, zero_add, zero_add]
    exact iff_of_true rfl (Or.inl rfl)
  · rw [or_iff_right hpos.ne', div_eq_div_iff hv'.ne' (by linarith), div_eq_div_iff hpos.ne' hv'.ne']
    constructor
    · intro h
      linarith
    · intro h
      linarith

theorem mem_sessionOf {symbol : String} {events : List WeightedEvent} {tick : Tick}
    (h : tick ∈ sessionOf symbol events) : ∃ now, .tick tick now ∈ events := by
  induction events using List.reverseRecOn with
  | nil => cases h
  | append_singleton events event ih =>
    have hearlier : tick ∈ sessionOf symbol events → ∃ now, .tick tick now ∈ events ++ [event] :=
      fun hmem => (ih hmem).imp fun _ hevent => List.mem_append_left _ hevent
    rw [sessionOf_concat] at h
    cases event with
    | tick t now =>
      dsimp only at h
      split at h
      · rcases List.mem_append.1 h with hold | hnew
        · exact hearlier hold
        · exact ⟨now, by simp [List.mem_singleton.1 hnew]⟩
      · exact hearlier h
    | resetVwap y =>
      dsimp only at h
      split at h
      · cases h
      · exact hearlier h
    | filled order => exact hearlier h
    | rejected order => exact hearlier h
    | setWeights => exact hearlier h

/-- **The session VWAP.** For every stream of ticks with positive prices, callbacks and session
starts, a scored tick of a session with volume stores the average of the session if and only if the
ticks of the session that were part of the warm-up make no difference to it. -/
theorem sessionVwap_iff (positionSize entryThreshold exitThreshold : ℚ)
    (events : List WeightedEvent) (hprices : ∀ event ∈ events, event.PositivePrice) (tick : Tick)
    (htick : 0 < tick.price)
    (hscores : (run handle (new positionSize entryThreshold exitThreshold) events).Scores tick)
    (hvolume : 0 < volumeOf (sessionOf tick.symbol events ++ [tick])) :
    let session := sessionOf tick.symbol events ++ [tick]
    let left := warmUpLeft (ticksOf tick.symbol events ++ [tick]) session
    HasSessionVwap (run handle (new positionSize entryThreshold exitThreshold) events) session tick ↔
      SkippedAlike (session.take left) (session.drop left) := by
  intro session left
  have hvwap := run_vwap (s := new positionSize entryThreshold exitThreshold) tick.symbol rfl events
  generalize run handle (new positionSize entryThreshold exitThreshold) events = s
    at hscores hvwap ⊢
  have hlength := (scores_iff hvwap.toWindowOf).1 hscores
  have hafter := hvwap.calculate tick (by omega)
  have hpositive : ∀ t ∈ session, 0 < t.price := by
    intro t ht
    rcases List.mem_append.1 ht with hpast | hnow
    · obtain ⟨now, hevent⟩ := mem_sessionOf hpast
      exact hprices _ hevent
    · rw [List.mem_singleton.1 hnow]
      exact htick
  have hskipped : ∀ t ∈ session.take left, 0 < t.price :=
    fun t ht => hpositive t (List.mem_of_mem_take ht)
  have hsplit : volumeOf session = volumeOf (session.take left) + volumeOf (session.drop left) := by
    rw [← volumeOf_append, List.take_append_drop]
  have hsplit' : turnoverOf session =
      turnoverOf (session.take left) + turnoverOf (session.drop left) := by
    rw [← turnoverOf_append, List.take_append_drop]
  have hstored : (s.scoredData tick).vwap =
      turnoverOf (session.drop left) / volumeOf (session.drop left) := by
    rw [← hafter.turnover, ← hafter.volume]
    exact hafter.vwap
  rcases (volumeOf_nonneg (session.drop left)).eq_or_lt with hnone | hcounted
  · have hnone := hnone.symm
    have hsession : 0 < volumeOf (session.take left) := by linarith [hsplit ▸ hvolume]
    refine iff_of_false (fun h => ?_) ?_
    · have htrue : 0 < turnoverOf session / volumeOf session :=
        div_pos ((turnoverOf_pos hpositive).1 hvolume) hvolume
      rw [← h.vwap, hstored, hnone, div_zero] at htrue
      exact lt_irrefl 0 htrue
    · rintro (hzero | ⟨hcounted, -⟩)
      · exact hsession.ne' hzero
      · exact hcounted.ne' hnone
  · have hdistance : (s.scoredData tick).vwapDistance =
        (tick.price - (s.scoredData tick).vwap) / (s.scoredData tick).vwap :=
      vwapDistance_calculate tick (hafter.volume.symm ▸ hcounted)
    have hiff : (s.scoredData tick).vwap = turnoverOf session / volumeOf session ↔
        SkippedAlike (session.take left) (session.drop left) := by
      rw [hstored, hsplit, hsplit', quotient_add_iff (turnoverOf_pos hskipped).2
        (volumeOf_nonneg _) hcounted, SkippedAlike, and_iff_right hcounted]
    exact ⟨fun h => hiff.1 h.vwap, fun h => ⟨hiff.2 h, hdistance⟩⟩

/-- Twenty-nine ticks at a price of 100 with a volume. -/
def opening (volume : ℚ) : List WeightedEvent :=
  List.replicate 29 (.tick { symbol := "AAPL", price := 100, volume } 0)

/-- After an opening without volume, the first scored tick is the session. -/
theorem quietOpening_sessionVwap :
    HasSessionVwap (run handle (new 10 (6 / 10) (3 / 10)) (opening 0))
      (sessionOf "AAPL" (opening 0) ++ [{ symbol := "AAPL", price := 110, volume := 10 }])
      { symbol := "AAPL", price := 110, volume := 10 } :=
  (sessionVwap_iff 10 (6 / 10) (3 / 10) (opening 0) (by decide +kernel)
    { symbol := "AAPL", price := 110, volume := 10 } (by decide +kernel) (by decide +kernel)
    (by decide +kernel)).2 (Or.inl (by decide +kernel))

/-- After one with volume, the stored average is the price of the scored tick alone. -/
theorem busyOpening_not_sessionVwap :
    ¬ HasSessionVwap (run handle (new 10 (6 / 10) (3 / 10)) (opening 10))
      (sessionOf "AAPL" (opening 10) ++ [{ symbol := "AAPL", price := 110, volume := 10 }])
      { symbol := "AAPL", price := 110, volume := 10 } := by
  intro h
  exact absurd h.vwap (by decide +kernel)

/-! ## The moving averages -/

/-- Fifty prices were seen, the price is above the mean of the last twenty, and that is above the
mean of the last fifty. -/
def CrossoverExists (seen : List ℚ) (price : ℚ) : Prop :=
  50 ≤ seen.length ∧ meanOf (lastN 20 seen) < price ∧
    meanOf (lastN 50 seen) < meanOf (lastN 20 seen)

/-- The SMA component is at its highest, or counts as a confirmation. -/
def CrossoverCredited (s : WeightedStrategy) (tick : Tick) : Prop :=
  (s.scoredData tick).smaScore = 8 / 10 ∨ "sma_cross" ∈ s.activeSignals (s.scoredData tick)

theorem credited_iff (s : WeightedStrategy) (tick : Tick) :
    s.CrossoverCredited tick ↔
      (s.scoredData tick).sma20 < (s.scoredData tick).prices.getLastD 0 ∧
        (s.scoredData tick).sma50 < (s.scoredData tick).sma20 := by
  have hactive : "sma_cross" ∈ s.activeSignals (s.scoredData tick) ↔
      6 / 10 < (s.scoredData tick).smaScore := by
    simp [activeSignals]
  rw [CrossoverCredited, hactive, SignalData.smaScore]
  split_ifs with hcross
  · exact iff_of_true (Or.inl rfl) hcross
  · exact iff_of_false (by norm_num) hcross
  · exact iff_of_false (by norm_num) hcross
  · exact iff_of_false (by norm_num) hcross

/-- **The crossover.** For every stream of ticks with positive prices a scored tick credits the
crossover only where it exists, if and only if fifty prices were seen or the price is not above the
mean of the last twenty. -/
theorem crossover_iff (positionSize entryThreshold exitThreshold : ℚ)
    (events : List WeightedEvent) (hprices : ∀ event ∈ events, event.PositivePrice) (tick : Tick)
    (htick : 0 < tick.price)
    (hscores : (run handle (new positionSize entryThreshold exitThreshold) events).Scores tick) :
    let seen := (ticksOf tick.symbol events ++ [tick]).map (·.price)
    ((run handle (new positionSize entryThreshold exitThreshold) events).CrossoverCredited tick →
        CrossoverExists seen tick.price) ↔
      50 ≤ seen.length ∨ tick.price ≤ meanOf (lastN 20 seen) := by
  intro seen
  have hwindow := run_window (s := new positionSize entryThreshold exitThreshold) tick.symbol rfl
    events
  generalize run handle (new positionSize entryThreshold exitThreshold) events = s
    at hscores hwindow ⊢
  have hlength := (scores_iff hwindow).1 hscores
  have hseen : seen.length = (ticksOf tick.symbol events).length + 1 := by
    simp only [seen, List.length_map, List.length_append, List.length_singleton]
  have hindicators := scoredData_indicators hwindow hscores
  have hlast : (s.scoredData tick).prices.getLastD 0 = tick.price := by
    rw [hindicators.prices, List.map_append, List.map_singleton, lastN_concat (by omega),
      List.getLastD_concat]
  have hshort : (s.scoredData tick).sma20 = meanOf (lastN 20 seen) := by
    rw [hindicators.sma20, hindicators.prices, sma20Of, lastN_lastN (by omega), meanOf,
      length_lastN, Nat.min_eq_left (by omega)]
    rfl
  have hlong : (s.scoredData tick).sma50 =
      if 50 ≤ seen.length then meanOf (lastN 50 seen) else 0 := by
    rw [hindicators.longMean, hindicators.prices, hseen, List.length_append, List.length_singleton]
  rw [credited_iff, hlast, hshort, hlong, CrossoverExists]
  by_cases hfull : 50 ≤ seen.length
  · rw [if_pos hfull]
    exact iff_of_true (fun h => ⟨hfull, h⟩) (Or.inl hfull)
  · have hpositive : ∀ price ∈ lastN 20 seen, 0 < price := by
      intro price hprice
      obtain ⟨t, ht, rfl⟩ := List.mem_map.1 (mem_of_mem_lastN hprice)
      rcases List.mem_append.1 ht with hpast | hnow
      · obtain ⟨now, hevent⟩ := mem_ticksOf hpast
        exact hprices _ hevent
      · rw [List.mem_singleton.1 hnow]
        exact htick
    have hne : lastN 20 seen ≠ [] := by
      rw [← List.length_pos_iff, length_lastN]
      omega
    have hmean := meanOf_pos hne hpositive
    rw [if_neg hfull, or_iff_right hfull]
    constructor
    · intro h
      by_contra hover
      exact hfull (h ⟨not_le.1 hover, hmean⟩).1
    · intro h hcross
      exact absurd hcross.1 (not_lt.2 h)

/-- `n` ticks, each a cent above the one before. -/
def climb (n : Nat) : List WeightedEvent :=
  (List.range n).map fun i => .tick { symbol := "AAPL", price := 100 + i / 100, volume := 10 } 0

/-- The top of a climb. -/
def summit : Tick := { symbol := "AAPL", price := 101, volume := 10 }

/-- The fiftieth price of a climb is credited with a crossover that exists. -/
theorem fiftyPrices_crossover :
    CrossoverExists ((ticksOf "AAPL" (climb 49) ++ [summit]).map (·.price)) 101 :=
  (crossover_iff 10 (6 / 10) (3 / 10) (climb 49) (by decide +kernel) summit (by decide +kernel)
    (by decide +kernel)).2 (Or.inl (by decide +kernel)) ((credited_iff _ _).2 (by decide +kernel))

/-- So is the thirtieth, although there is no mean of fifty prices. -/
theorem thirtyPrices_not_crossover :
    (run handle (new 10 (6 / 10) (3 / 10)) (climb 29)).CrossoverCredited summit ∧
      ¬ CrossoverExists ((ticksOf "AAPL" (climb 29) ++ [summit]).map (·.price)) 101 :=
  ⟨(credited_iff _ _).2 (by decide +kernel), fun h => absurd h.1 (by decide +kernel)⟩

end WeightedStrategy

end TradingTerminal
