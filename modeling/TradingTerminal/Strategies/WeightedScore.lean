import TradingTerminal.Strategies.WeightedRuns
import Mathlib.Tactic.Linarith
import Mathlib.Tactic.NormNum

/-!
# The weighted score

The score is a mean of five component scores, scaled up to at most 1 for three confirmations. With
normalised weights it stays between 0 and 1 over every run (`scoreInRange`). Two component scores
fall where their indicator gets stronger, at a momentum of 1% and at an RSI of 30; `followed_iff`
says exactly when the score follows a stronger indicator.
-/

namespace TradingTerminal

open Lib

namespace WeightedStrategy

/-! ## The component scores -/

/-- The weights that `set_weights` makes of non-negative ones. -/
structure Normalised (w : IndicatorWeights) : Prop where
  momentum : 0 ≤ w.momentumWeight
  rsi : 0 ≤ w.rsiWeight
  volume : 0 ≤ w.volumeWeight
  vwap : 0 ≤ w.vwapWeight
  sma : 0 ≤ w.smaWeight
  total : w.momentumWeight + w.rsiWeight + w.volumeWeight + w.vwapWeight + w.smaWeight = 1

namespace SignalData

variable (data : SignalData)

theorem momentumScore_mem : 0 ≤ data.momentumScore ∧ data.momentumScore ≤ 1 := by
  unfold momentumScore
  split
  · next hup => exact ⟨le_min (by norm_num) (by linarith), min_le_left _ _⟩
  · next hup =>
    split
    · exact ⟨le_refl 0, by norm_num⟩
    · next hdown => exact ⟨by linarith, by linarith⟩

theorem smaScore_mem : 0 ≤ data.smaScore ∧ data.smaScore ≤ 1 := by
  unfold smaScore
  dsimp only
  split_ifs <;> norm_num

theorem rsiScore_nonneg : 0 ≤ data.rsiScore 30 70 := by
  unfold rsiScore
  split
  · next hlow => linarith
  · split <;> norm_num

theorem rsiScore_le_one (h : 0 ≤ data.rsi) : data.rsiScore 30 70 ≤ 1 := by
  unfold rsiScore
  split
  · linarith
  · split <;> norm_num

theorem volumeScore_mem : 0 ≤ data.volumeScore ∧ data.volumeScore ≤ 1 :=
  ⟨le_max_left _ _, max_le (by norm_num) (min_le_left _ _)⟩

theorem vwapScore_mem : 0 ≤ data.vwapScore ∧ data.vwapScore ≤ 1 := by
  unfold vwapScore
  split_ifs <;> norm_num

end SignalData

/-- The bonus for several confirmations. -/
def withBonus (confirmations : Nat) (sum : ℚ) : ℚ :=
  if confirmations ≥ 3 then min 1 (sum * (12 / 10)) else sum

theorem calculateWeightedScore_eq (s : WeightedStrategy) (data : SignalData) :
    (s.calculateWeightedScore data).1 =
      withBonus (s.activeSignals data).length (s.weightedSum data) := rfl

theorem withBonus_mem {n : Nat} {sum : ℚ} (h : 0 ≤ sum ∧ sum ≤ 1) :
    0 ≤ withBonus n sum ∧ withBonus n sum ≤ 1 := by
  unfold withBonus
  split
  · exact ⟨le_min (by norm_num) (by linarith [h.1]), min_le_left _ _⟩
  · exact h

/-- The scores the strategy is built with compare the RSI to 30 and 70. -/
structure Standard (s : WeightedStrategy) : Prop where
  weights : Normalised s.weights
  rsiLower : s.rsiLower = 30
  rsiUpper : s.rsiUpper = 70

variable {s : WeightedStrategy} {data : SignalData}

theorem Standard.weightedSum_nonneg (h : s.Standard) (data : SignalData) :
    0 ≤ s.weightedSum data := by
  have hmomentum := mul_nonneg data.momentumScore_mem.1 h.weights.momentum
  have hrsi := mul_nonneg data.rsiScore_nonneg h.weights.rsi
  have hvolume := mul_nonneg data.volumeScore_mem.1 h.weights.volume
  have hvwap := mul_nonneg data.vwapScore_mem.1 h.weights.vwap
  have hsma := mul_nonneg data.smaScore_mem.1 h.weights.sma
  rw [weightedSum, h.rsiLower, h.rsiUpper]
  linarith

/-- The mean of scores that are at most 1. -/
theorem Standard.weightedSum_le_one (h : s.Standard) (hrsi : 0 ≤ data.rsi) :
    s.weightedSum data ≤ 1 := by
  have hmomentum := mul_le_of_le_one_left h.weights.momentum data.momentumScore_mem.2
  have hrsi := mul_le_of_le_one_left h.weights.rsi (data.rsiScore_le_one hrsi)
  have hvolume := mul_le_of_le_one_left h.weights.volume data.volumeScore_mem.2
  have hvwap := mul_le_of_le_one_left h.weights.vwap data.vwapScore_mem.2
  have hsma := mul_le_of_le_one_left h.weights.sma data.smaScore_mem.2
  rw [weightedSum, h.rsiLower, h.rsiUpper]
  linarith [h.weights.total]

/-! ## Runs -/

/-- The price of a tick is positive and its volume is not negative, and so are weights not. -/
def Plausible : WeightedEvent → Prop
  | .tick t _ => 0 < t.price ∧ 0 ≤ t.volume
  | .setWeights momentumW rsiW volumeW vwapW smaW =>
    0 ≤ momentumW ∧ 0 ≤ rsiW ∧ 0 ≤ volumeW ∧ 0 ≤ vwapW ∧ 0 ≤ smaW
  | _ => True

instance : DecidablePred Plausible
  | .tick _ _ => inferInstanceAs (Decidable (_ ∧ _))
  | .setWeights _ _ _ _ _ => inferInstanceAs (Decidable (_ ∧ _))
  | .filled _ => .isTrue trivial
  | .rejected _ => .isTrue trivial
  | .resetVwap _ => .isTrue trivial

theorem standard_new (positionSize entryThreshold exitThreshold : ℚ) :
    (new positionSize entryThreshold exitThreshold).Standard := by
  refine ⟨?_, rfl, rfl⟩
  constructor <;> norm_num [new]

/-- `set_weights` normalises. -/
theorem normalised_setWeights (h : Normalised s.weights) {momentumW rsiW volumeW vwapW smaW : ℚ}
    (hw : Plausible (.setWeights momentumW rsiW volumeW vwapW smaW)) :
    Normalised (s.setWeights momentumW rsiW volumeW vwapW smaW).weights := by
  obtain ⟨hmomentum, hrsi, hvolume, hvwap, hsma⟩ := hw
  unfold setWeights
  dsimp only
  split
  · exact h
  · next htotal =>
    have hpos := not_le.1 htotal
    refine ⟨div_nonneg hmomentum hpos.le, div_nonneg hrsi hpos.le, div_nonneg hvolume hpos.le,
      div_nonneg hvwap hpos.le, div_nonneg hsma hpos.le, ?_⟩
    rw [← add_div, ← add_div, ← add_div, ← add_div, div_self hpos.ne']

theorem Standard.handle (h : s.Standard) {event : WeightedEvent} (hevent : Plausible event) :
    (s.handle event).Standard := by
  have hkept : ∀ {s' : WeightedStrategy}, s'.weights = s.weights → s'.rsiLower = s.rsiLower →
      s'.rsiUpper = s.rsiUpper → s'.Standard := fun hw hl hu =>
    ⟨hw ▸ h.weights, hl.trans h.rsiLower, hu.trans h.rsiUpper⟩
  cases event with
  | tick tick now =>
    unfold WeightedStrategy.handle generateSignal
    dsimp only
    split <;> exact hkept rfl rfl rfl
  | filled order =>
    unfold WeightedStrategy.handle onOrderFilled
    dsimp only
    split <;> exact hkept rfl rfl rfl
  | rejected order => exact hkept rfl rfl rfl
  | resetVwap symbol =>
    unfold WeightedStrategy.handle resetVwap
    dsimp only
    split <;> exact hkept rfl rfl rfl
  | setWeights momentumW rsiW volumeW vwapW smaW =>
    refine ⟨normalised_setWeights h.weights hevent, ?_, ?_⟩
    · rw [WeightedStrategy.handle, setWeights]
      split <;> exact h.rsiLower
    · rw [WeightedStrategy.handle, setWeights]
      split <;> exact h.rsiUpper

/-- The confidence of a signal is the score, or that of no signal. -/
theorem trade_confidence (size pct : ℚ) (tick : Tick) (now : UInt64)
    (exitReason : PositionState → Option String) (score : ℚ) {entry : Option (String × ℚ)}
    (hentry : ∀ e ∈ entry, e.2 = score) (p : PositionState) :
    (trade size pct tick now exitReason score entry p).signal.confidence = 0 ∨
      (trade size pct tick now exitReason score entry p).signal.confidence = score := by
  unfold trade
  cases hin : p.inPosition with
  | true =>
    cases hreason : exitReason (p.raiseStop pct tick.price) with
    | none => simp [hreason]
    | some reason => cases hpend : p.pendingExit <;> simp [hreason, hpend]
  | false =>
    cases hpend : p.pendingExit with
    | true => simp
    | false =>
      cases entry with
      | none => simp
      | some e => simp [hentry e rfl]

theorem generateSignal_confidence {tick : Tick} (hscores : s.Scores tick) (now : UInt64) :
    (s.generateSignal tick now).1.confidence = 0 ∨
      (s.generateSignal tick now).1.confidence = s.score tick := by
  have hlong : ¬ ((s.signalData tick.symbol).recordTick tick).prices.length < 30 :=
    not_lt.2 hscores
  unfold generateSignal
  simp only [if_neg hlong]
  refine trade_confidence _ _ _ _ _ _ (fun e he => ?_) _
  unfold entry at he
  split at he
  · obtain rfl := Option.some.inj he
    rfl
  · cases he

/-- What a scored tick computes is in range. -/
structure InRange (s : WeightedStrategy) (tick : Tick) (now : UInt64) : Prop where
  rsi : 0 ≤ (s.scoredData tick).rsi ∧ (s.scoredData tick).rsi ≤ 100
  volumeRatio : 0 ≤ (s.scoredData tick).volumeRatio
  momentumScore : 0 ≤ (s.scoredData tick).momentumScore ∧ (s.scoredData tick).momentumScore ≤ 1
  smaScore : 0 ≤ (s.scoredData tick).smaScore ∧ (s.scoredData tick).smaScore ≤ 1
  rsiScore : 0 ≤ (s.scoredData tick).rsiScore s.rsiLower s.rsiUpper ∧
    (s.scoredData tick).rsiScore s.rsiLower s.rsiUpper ≤ 1
  volumeScore : 0 ≤ (s.scoredData tick).volumeScore ∧ (s.scoredData tick).volumeScore ≤ 1
  vwapScore : 0 ≤ (s.scoredData tick).vwapScore ∧ (s.scoredData tick).vwapScore ≤ 1
  score : 0 ≤ s.score tick ∧ s.score tick ≤ 1
  confidence : 0 ≤ (s.generateSignal tick now).1.confidence ∧
    (s.generateSignal tick now).1.confidence ≤ 1

theorem volumeRatioOf_nonneg {volumes : List ℚ} (h : ∀ v ∈ volumes, 0 ≤ v) :
    0 ≤ volumeRatioOf volumes := by
  have hnew : 0 ≤ (volumes.drop (volumes.length / 2)).sum :=
    List.sum_nonneg fun v hv => h v (List.mem_of_mem_drop hv)
  unfold volumeRatioOf
  dsimp only
  split
  · next hold => exact div_nonneg (div_nonneg hnew (Nat.cast_nonneg _)) hold.le
  · norm_num

/-- **The score is in range.** For every sequence of plausible ticks and weights, with callbacks and
session starts in between, what the next scored tick computes is in range. -/
theorem scoreInRange (positionSize entryThreshold exitThreshold : ℚ) {events : List WeightedEvent}
    (hevents : ∀ event ∈ events, Plausible event) {tick : Tick} {now : UInt64}
    (htick : Plausible (.tick tick now))
    (hscores : (run handle (new positionSize entryThreshold exitThreshold) events).Scores tick) :
    InRange (run handle (new positionSize entryThreshold exitThreshold) events) tick now := by
  have hwindow := run_window (s := new positionSize entryThreshold exitThreshold) tick.symbol rfl
    events
  have hstandard : (run handle (new positionSize entryThreshold exitThreshold) events).Standard :=
    (throughout_of_guarded (G := fun _ _ => True) (fun _ _ hevent h _ => h.handle hevent) hevents
      (standard_new positionSize entryThreshold exitThreshold) (fun _ _ _ => trivial)).last
  generalize run handle (new positionSize entryThreshold exitThreshold) events = s
    at hscores hwindow hstandard ⊢
  have hindicators := scoredData_indicators hwindow hscores
  have hrsi : 0 ≤ (s.scoredData tick).rsi ∧ (s.scoredData tick).rsi ≤ 100 := by
    rw [hindicators.rsi]
    exact rsiOf_mem _
  have hratio : 0 ≤ (s.scoredData tick).volumeRatio := by
    rw [hindicators.volumeRatio, hindicators.volumes]
    refine volumeRatioOf_nonneg fun v hv => ?_
    obtain ⟨t, ht, rfl⟩ := List.mem_map.1 (mem_of_mem_lastN hv)
    rcases List.mem_append.1 ht with hpast | hnow
    · obtain ⟨now', hevent⟩ := mem_ticksOf hpast
      exact (hevents _ hevent).2
    · rw [List.mem_singleton.1 hnow]
      exact htick.2
  have hscore : 0 ≤ s.score tick ∧ s.score tick ≤ 1 :=
    withBonus_mem ⟨hstandard.weightedSum_nonneg (s.scoredData tick),
      hstandard.weightedSum_le_one hrsi.1⟩
  refine ⟨hrsi, hratio, SignalData.momentumScore_mem _, SignalData.smaScore_mem _, ?_,
    SignalData.volumeScore_mem _, SignalData.vwapScore_mem _, hscore, ?_⟩
  · rw [hstandard.rsiLower, hstandard.rsiUpper]
    exact ⟨SignalData.rsiScore_nonneg _, SignalData.rsiScore_le_one _ hrsi.1⟩
  · rcases generateSignal_confidence hscores now with h | h
    · rw [h]
      exact ⟨le_refl 0, by norm_num⟩
    · rw [h]
      exact hscore

/-- Equal weights and twenty-nine rising ticks. -/
def rising : List WeightedEvent :=
  .setWeights 1 1 1 1 1 :: (List.range 29).map fun i =>
    .tick { symbol := "AAPL", price := 100 + i, volume := 10 } 0

/-- The thirtieth tick is scored. -/
theorem rising_inRange :
    let s := run handle (new 10 (6 / 10) (3 / 10)) rising
    InRange s { symbol := "AAPL", price := 129, volume := 50 } 0 ∧
      s.Scores { symbol := "AAPL", price := 129, volume := 50 } :=
  ⟨scoreInRange _ _ _ (by decide +kernel) (by decide +kernel) (by decide +kernel),
    by decide +kernel⟩

/-! ## The reaction to one indicator -/

/-- A new value for one indicator. -/
inductive Move where
  | momentum (value : ℚ)
  | volumeRatio (value : ℚ)
  | rsi (value : ℚ)
  | vwapDistance (value : ℚ)

namespace Move

def apply (data : SignalData) : Move → SignalData
  | .momentum value => { data with momentum := value }
  | .volumeRatio value => { data with volumeRatio := value }
  | .rsi value => { data with rsi := value }
  | .vwapDistance value => { data with vwapDistance := value }

/-- The move makes the case for a BUY no weaker. -/
def Strengthens (data : SignalData) : Move → Prop
  | .momentum value => data.momentum ≤ value
  | .volumeRatio value => data.volumeRatio ≤ value
  | .rsi value => 0 ≤ value ∧ value ≤ data.rsi ∧ data.rsi ≤ 100
  | .vwapDistance value => value ≤ data.vwapDistance

instance (data : SignalData) : DecidablePred (Strengthens data)
  | .momentum _ => inferInstanceAs (Decidable (_ ≤ _))
  | .volumeRatio _ => inferInstanceAs (Decidable (_ ≤ _))
  | .rsi _ => inferInstanceAs (Decidable (_ ∧ _))
  | .vwapDistance _ => inferInstanceAs (Decidable (_ ≤ _))

/-- The weight of the indicator that moves. -/
def weight (w : IndicatorWeights) : Move → ℚ
  | .momentum _ => w.momentumWeight
  | .volumeRatio _ => w.volumeWeight
  | .rsi _ => w.rsiWeight
  | .vwapDistance _ => w.vwapWeight

/-- The move crosses a point where the score of the indicator jumps down: a momentum of 1%, where the
score falls from 0.75 to 0.2, or an RSI of 30, where it falls from 0.5 to 0. -/
def JumpsDown (data : SignalData) : Move → Prop
  | .momentum value => -1 / 100 ≤ data.momentum ∧ data.momentum ≤ 1 / 100 ∧ 1 / 100 < value ∧
      value < 1 / 40 + 5 / 4 * data.momentum
  | .rsi value => 30 ≤ data.rsi ∧ data.rsi ≤ 70 ∧ 15 < value ∧ value < 30
  | _ => False

instance (data : SignalData) : DecidablePred (JumpsDown data)
  | .momentum _ => inferInstanceAs (Decidable (_ ∧ _))
  | .rsi _ => inferInstanceAs (Decidable (_ ∧ _))
  | .volumeRatio _ => .isFalse not_false
  | .vwapDistance _ => .isFalse not_false

end Move

/-- Neither a jump nor the bonus lowers the score. A jump is not seen where the weight of the
indicator is zero or the score is at its cap; the third confirmation lowers a sum above 1. -/
def Unlowered (s : WeightedStrategy) (data : SignalData) (move : Move) : Prop :=
  let before := (s.activeSignals data).length
  let after := (s.activeSignals (move.apply data)).length
  if move.JumpsDown data then
    if before < 3 then move.weight s.weights = 0
    else if after < 3 then s.weightedSum data = 0 ∨ 1 ≤ s.weightedSum (move.apply data)
    else move.weight s.weights = 0 ∨ 5 / 6 ≤ s.weightedSum (move.apply data)
  else ¬ (before < 3 ∧ 3 ≤ after ∧ 1 < s.weightedSum data)

section Bonus

variable {n n' : Nat} {sum sum' : ℚ}

theorem withBonus_le_iff_of_rise (h0 : 0 ≤ sum) (hsum : sum ≤ sum') (hn : n ≤ n') :
    withBonus n sum ≤ withBonus n' sum' ↔ ¬ (n < 3 ∧ 3 ≤ n' ∧ 1 < sum) := by
  unfold withBonus
  by_cases hbefore : n ≥ 3
  · rw [if_pos hbefore, if_pos (hbefore.trans hn)]
    refine iff_of_true (min_le_min_left 1 (by linarith)) fun h => ?_
    omega
  · rw [if_neg hbefore]
    by_cases hafter : n' ≥ 3
    · rw [if_pos hafter, le_min_iff]
      constructor
      · rintro ⟨hone, -⟩ ⟨-, -, hover⟩
        linarith
      · intro h
        refine ⟨not_lt.1 fun hover => h ⟨by omega, hafter, hover⟩, by linarith⟩
    · rw [if_neg hafter]
      exact iff_of_true hsum fun h => hafter h.2.1

theorem withBonus_le_iff_of_fall (h0 : 0 ≤ sum') (hsum : sum' ≤ sum) (hn : n' ≤ n) :
    withBonus n sum ≤ withBonus n' sum' ↔
      if n < 3 then sum' = sum
      else if n' < 3 then sum = 0 ∨ 1 ≤ sum'
      else sum' = sum ∨ 5 / 6 ≤ sum' := by
  unfold withBonus
  by_cases hbefore : n < 3
  · rw [if_neg (by omega), if_neg (by omega), if_pos hbefore]
    exact ⟨hsum.antisymm, fun h => h.ge⟩
  · rw [if_pos (by omega), if_neg hbefore]
    by_cases hafter : n' < 3
    · rw [if_neg (by omega), if_pos hafter, min_le_iff, or_comm]
      refine or_congr_left ⟨fun h => ?_, fun h => ?_⟩
      · linarith
      · linarith
    · rw [if_pos (by omega), if_neg hafter, le_min_iff, and_iff_right (min_le_left _ _),
        min_le_iff, or_comm]
      refine or_congr ⟨fun h => ?_, fun h => ?_⟩ ⟨fun h => ?_, fun h => ?_⟩
      · linarith
      · linarith
      · linarith
      · linarith

end Bonus

/-- No component score of the first is above that of the second. -/
structure Below (data data' : SignalData) : Prop where
  momentum : data.momentumScore ≤ data'.momentumScore
  rsi : data.rsiScore 30 70 ≤ data'.rsiScore 30 70
  volume : data.volumeScore ≤ data'.volumeScore
  vwap : data.vwapScore ≤ data'.vwapScore
  sma : data.smaScore ≤ data'.smaScore

variable {data' : SignalData} {move : Move}

theorem Standard.weightedSum_le (h : s.Standard) (hbelow : Below data data') :
    s.weightedSum data ≤ s.weightedSum data' := by
  have hmomentum := mul_le_mul_of_nonneg_right hbelow.momentum h.weights.momentum
  have hrsi := mul_le_mul_of_nonneg_right hbelow.rsi h.weights.rsi
  have hvolume := mul_le_mul_of_nonneg_right hbelow.volume h.weights.volume
  have hvwap := mul_le_mul_of_nonneg_right hbelow.vwap h.weights.vwap
  have hsma := mul_le_mul_of_nonneg_right hbelow.sma h.weights.sma
  rw [weightedSum, weightedSum, h.rsiLower, h.rsiUpper]
  linarith

theorem confirmed_le {score score' : ℚ} (h : score ≤ score') (limit : ℚ) (text : String) :
    (if score > limit then [text] else []).length ≤
      (if score' > limit then [text] else []).length := by
  split
  · next hover => rw [if_pos (hover.trans_le h)]
  · exact Nat.zero_le _

theorem Standard.confirmations_le (h : s.Standard) (hbelow : Below data data') :
    (s.activeSignals data).length ≤ (s.activeSignals data').length := by
  simp only [activeSignals, List.length_append, h.rsiLower, h.rsiUpper]
  have hmomentum := confirmed_le hbelow.momentum (6 / 10) "momentum"
  have hsma := confirmed_le hbelow.sma (6 / 10) "sma_cross"
  have hrsi := confirmed_le hbelow.rsi (6 / 10) "rsi_oversold"
  have hvolume := confirmed_le hbelow.volume (1 / 2) "high_volume"
  have hvwap := confirmed_le hbelow.vwap (6 / 10) "below_vwap"
  omega

/-! Where a component score does not jump it follows its indicator. -/

theorem momentumScore_rise (data data' : SignalData) {m m' : ℚ} (hm : data.momentum = m)
    (hm' : data'.momentum = m')
    (h : m ≤ m') :
    (-1 / 100 ≤ m ∧ m ≤ 1 / 100 ∧ 1 / 100 < m' ∧ m' < 1 / 40 + 5 / 4 * m →
      data'.momentumScore < data.momentumScore) ∧
    (¬ (-1 / 100 ≤ m ∧ m ≤ 1 / 100 ∧ 1 / 100 < m' ∧ m' < 1 / 40 + 5 / 4 * m) →
      data.momentumScore ≤ data'.momentumScore) := by
  unfold SignalData.momentumScore
  rw [hm, hm']
  constructor
  · rintro ⟨hlow, hhigh, hover, hbelow⟩
    rw [if_pos hover, if_neg (not_lt.2 hhigh), if_neg (not_lt.2 hlow)]
    exact (min_le_right _ _).trans_lt (by linarith)
  · intro hjump
    by_cases hup : m > 1 / 100
    · rw [if_pos hup, if_pos (hup.trans_le h)]
      exact min_le_min_left 1 (by linarith)
    · rw [if_neg hup]
      by_cases hdown : m < -1 / 100
      · rw [if_pos hdown]
        have hmem := data'.momentumScore_mem.1
        rwa [SignalData.momentumScore, hm'] at hmem
      · rw [if_neg hdown]
        by_cases hup' : m' > 1 / 100
        · have hfar : 1 / 40 + 5 / 4 * m ≤ m' :=
            not_lt.1 fun hnear => hjump ⟨not_lt.1 hdown, not_lt.1 hup, hup', hnear⟩
          rw [if_pos hup']
          exact le_min (by linarith) (by linarith)
        · rw [if_neg hup', if_neg (not_lt.2 ((not_lt.1 hdown).trans h))]
          linarith

theorem rsiScore_rise (data data' : SignalData) {r r' : ℚ} (hr : data.rsi = r)
    (hr' : data'.rsi = r') (h : r' ≤ r) :
    (30 ≤ r ∧ r ≤ 70 ∧ 15 < r' ∧ r' < 30 → data'.rsiScore 30 70 < data.rsiScore 30 70) ∧
    (¬ (30 ≤ r ∧ r ≤ 70 ∧ 15 < r' ∧ r' < 30) → data.rsiScore 30 70 ≤ data'.rsiScore 30 70) := by
  unfold SignalData.rsiScore
  rw [hr, hr']
  constructor
  · rintro ⟨hlow, hhigh, hover, hbelow⟩
    rw [if_pos hbelow, if_neg (not_lt.2 hlow), if_neg (not_lt.2 hhigh)]
    linarith
  · intro hjump
    by_cases hlow : r < 30
    · rw [if_pos hlow, if_pos (h.trans_lt hlow)]
      linarith
    · rw [if_neg hlow]
      by_cases hhigh : r > 70
      · rw [if_pos hhigh]
        have hmem := data'.rsiScore_nonneg
        rwa [SignalData.rsiScore, hr'] at hmem
      · rw [if_neg hhigh, if_neg (not_lt.2 (h.trans (not_lt.1 hhigh)))]
        split
        · next hlow' =>
          have hfar : r' ≤ 15 :=
            not_lt.1 fun hnear => hjump ⟨not_lt.1 hlow, not_lt.1 hhigh, hnear, hlow'⟩
          linarith
        · exact le_refl _

theorem volumeScore_rise (h : data.volumeRatio ≤ data'.volumeRatio) :
    data.volumeScore ≤ data'.volumeScore :=
  max_le_max_left 0 (min_le_min_left 1 (by linarith))

theorem vwapScore_rise (h : data'.vwapDistance ≤ data.vwapDistance) :
    data.vwapScore ≤ data'.vwapScore := by
  unfold SignalData.vwapScore
  split_ifs <;> linarith

/-- A move that does not jump lowers no component score. -/
theorem below_apply (h : move.Strengthens data) (hjump : ¬ move.JumpsDown data) :
    Below data (move.apply data) := by
  cases move with
  | momentum value =>
    have hrise := momentumScore_rise data ((Move.momentum value).apply data) rfl rfl h
    exact ⟨hrise.2 hjump, le_refl _, le_refl _, le_refl _, le_refl _⟩
  | volumeRatio value =>
    exact ⟨le_refl _, le_refl _, volumeScore_rise h, le_refl _, le_refl _⟩
  | rsi value =>
    have hrise := rsiScore_rise data ((Move.rsi value).apply data) rfl rfl h.2.1
    exact ⟨le_refl _, hrise.2 hjump, le_refl _, le_refl _, le_refl _⟩
  | vwapDistance value =>
    exact ⟨le_refl _, le_refl _, le_refl _, vwapScore_rise h, le_refl _⟩

/-- A jump lowers one component score, and the sum with it unless the weight is zero. -/
theorem Standard.apply_below (hs : s.Standard) (h : move.Strengthens data)
    (hjump : move.JumpsDown data) :
    Below (move.apply data) data ∧
      (s.weightedSum (move.apply data) = s.weightedSum data ↔ move.weight s.weights = 0) := by
  cases move with
  | momentum value =>
    have hfall := (momentumScore_rise data ((Move.momentum value).apply data) rfl rfl h).1 hjump
    refine ⟨⟨hfall.le, le_refl _, le_refl _, le_refl _, le_refl _⟩, ?_⟩
    have hdiff : s.weightedSum data - s.weightedSum ((Move.momentum value).apply data) =
        (data.momentumScore - ((Move.momentum value).apply data).momentumScore) *
          s.weights.momentumWeight := by
      unfold weightedSum
      change _ - (_ + data.rsiScore _ _ * _ + data.volumeScore * _ + data.vwapScore * _ +
        data.smaScore * _) = _
      ring
    rw [eq_comm, ← sub_eq_zero, hdiff, mul_eq_zero, or_iff_right (sub_pos.2 hfall).ne']
    exact Iff.rfl
  | rsi value =>
    have hfall := (rsiScore_rise data ((Move.rsi value).apply data) rfl rfl h.2.1).1 hjump
    refine ⟨⟨le_refl _, hfall.le, le_refl _, le_refl _, le_refl _⟩, ?_⟩
    have hdiff : s.weightedSum data - s.weightedSum ((Move.rsi value).apply data) =
        (data.rsiScore 30 70 - ((Move.rsi value).apply data).rsiScore 30 70) *
          s.weights.rsiWeight := by
      unfold weightedSum
      rw [hs.rsiLower, hs.rsiUpper]
      change _ - (data.momentumScore * _ + _ + data.volumeScore * _ + data.vwapScore * _ +
        data.smaScore * _) = _
      ring
    rw [eq_comm, ← sub_eq_zero, hdiff, mul_eq_zero, or_iff_right (sub_pos.2 hfall).ne']
    exact Iff.rfl
  | volumeRatio value => exact absurd hjump not_false
  | vwapDistance value => exact absurd hjump not_false

/-- **The score follows its indicators** exactly where neither a jump nor the bonus lowers it: for
all normalised weights, all data and all moves of one indicator that make it no weaker. -/
theorem followed_iff {s : WeightedStrategy} (hs : s.Standard) (data : SignalData) {move : Move}
    (h : move.Strengthens data) :
    (s.calculateWeightedScore data).1 ≤ (s.calculateWeightedScore (move.apply data)).1 ↔
      s.Unlowered data move := by
  rw [calculateWeightedScore_eq, calculateWeightedScore_eq, Unlowered]
  by_cases hjump : move.JumpsDown data
  · obtain ⟨hbelow, hweight⟩ := hs.apply_below h hjump
    rw [if_pos hjump, withBonus_le_iff_of_fall (hs.weightedSum_nonneg _)
      (hs.weightedSum_le hbelow) (hs.confirmations_le hbelow), hweight]
  · have hbelow := below_apply h hjump
    rw [if_neg hjump, withBonus_le_iff_of_rise (hs.weightedSum_nonneg _)
      (hs.weightedSum_le hbelow) (hs.confirmations_le hbelow)]

/-- Thirty equal prices. -/
def level : SignalData := { prices := List.replicate 30 100, sma20 := 100, momentum := 1 / 100 }

/-- A volume ratio that doubles is followed. -/
theorem doubledVolume_followed :
    ((new 100 (6 / 10) (3 / 10)).calculateWeightedScore level).1 ≤
      ((new 100 (6 / 10) (3 / 10)).calculateWeightedScore
        ((Move.volumeRatio 2).apply level)).1 := by
  refine (followed_iff (standard_new _ _ _) level (by decide +kernel)).2 ?_
  unfold Unlowered
  decide +kernel

/-- A momentum of 2% scores lower than one of 1%, all else equal. -/
theorem doubledMomentum_not_followed :
    (Move.momentum (2 / 100)).Strengthens level ∧
      ¬ ((new 100 (6 / 10) (3 / 10)).calculateWeightedScore level).1 ≤
        ((new 100 (6 / 10) (3 / 10)).calculateWeightedScore
          ((Move.momentum (2 / 100)).apply level)).1 := by
  decide +kernel

end WeightedStrategy

end TradingTerminal
