import TradingTerminal.Live.BreakerLatch
import TradingTerminal.Lib.Calendar

/-!
# Calendar days of the circuit breaker

The counters of the breaker are cleared by a query that comes a full day after the last clearing, at
whatever time of day that was. A `BreakerDiary` is a breaker whose calls are dated: next to it stand
the trades recorded so far, those recorded since the counters were cleared, and the query that
tripped it. A query looks at its own calendar day alone exactly when it clears the counters or finds
only trades of that day among those still counted (`decidesOnToday_iff`).
-/

namespace TradingTerminal

open Lib Lib.Calendar

/-- The calls of a breaker, each with the clock at it. -/
inductive DatedCall where
  | canTrade (now : TimePoint)
  | recordTrade (now : TimePoint) (pnl : ℚ)
  | reset (now : TimePoint)
  deriving DecidableEq

/-- A recorded trade. -/
structure DatedTrade where
  time : TimePoint
  pnl : ℚ
  deriving DecidableEq

structure BreakerDiary where
  breaker : CircuitBreaker
  clock : TimePoint
  /-- all trades recorded -/
  trades : List DatedTrade := []
  /-- the trades recorded since the counters were cleared -/
  counted : List DatedTrade := []
  /-- the query at which the breaker tripped last -/
  trippedAt : TimePoint

instance (last now : TimePoint) : Decidable (CircuitBreaker.NewDay last now) :=
  inferInstanceAs (Decidable (_ ≤ _))

/-- The calendar day of a clock reading, at an offset from UTC. -/
def calendarDay (offset : Int) (t : TimePoint) : Int := dayOf offset (toTimeT t)

namespace BreakerDiary

def new (capital : ℚ) (start : TimePoint) : BreakerDiary :=
  { breaker := .new capital start, clock := start, trippedAt := start }

/-- The diary when a query at `now` has looked at the day. -/
def check (s : BreakerDiary) (now : TimePoint) : BreakerDiary :=
  { s with
    breaker := s.breaker.checkAndResetDaily now
    clock := now
    counted := if CircuitBreaker.NewDay s.breaker.lastReset now then [] else s.counted }

def step (s : BreakerDiary) : DatedCall → BreakerDiary
  | .canTrade now =>
    { s.check now with
      breaker := (s.breaker.canTrade now).2
      trippedAt :=
        if (s.breaker.canTrade now).2.tripped && !(s.check now).breaker.tripped then now
        else s.trippedAt }
  | .recordTrade now pnl =>
    { s with
      breaker := s.breaker.recordTrade pnl
      clock := now
      trades := s.trades ++ [⟨now, pnl⟩]
      counted := s.counted ++ [⟨now, pnl⟩] }
  | .reset now => { s with breaker := s.breaker.reset, clock := now, counted := [] }

/-- The clock does not go back. -/
def ClockForward (s : BreakerDiary) : DatedCall → Prop
  | .canTrade now | .recordTrade now _ | .reset now => s.clock ≤ now

/-- The trades recorded on the calendar day of a clock reading. -/
def tradesOn (offset : Int) (s : BreakerDiary) (now : TimePoint) : List DatedTrade :=
  s.trades.filter fun trade => calendarDay offset trade.time = calendarDay offset now

/-- What a query decides on: counters that account for trades of its calendar day only, and no trip
of another one. -/
structure Today (offset : Int) (s : BreakerDiary) (now : TimePoint) : Prop where
  counters : ∃ trades : List DatedTrade, trades.Sublist (s.tradesOn offset now) ∧
    s.breaker.tradeCount = trades.length ∧ s.breaker.dailyPnl = (trades.map DatedTrade.pnl).sum
  trip : s.breaker.tripped = true → calendarDay offset s.trippedAt = calendarDay offset now

def DecidesOnToday (offset : Int) (s : BreakerDiary) : DatedCall → Prop
  | .canTrade now => Today offset (s.check now) now
  | _ => True

/-- A query comes a day after the counters were cleared by the clock, or all trades recorded since
they were cleared are of its calendar day. -/
def ClearsOrFindsToday (offset : Int) (s : BreakerDiary) : DatedCall → Prop
  | .canTrade now => CircuitBreaker.NewDay s.breaker.lastReset now ∨
      ∀ trade ∈ s.counted, calendarDay offset trade.time = calendarDay offset now
  | _ => True

/-! ## What the counters stand for -/

/-- The counters are those of the trades counted, which are the last ones recorded, and a tripped
breaker counts a trade from before its trip. -/
structure Counts (s : BreakerDiary) : Prop where
  limit : 0 < s.breaker.dailyLossLimit
  tradeCount : s.breaker.tradeCount = s.counted.length
  dailyPnl : s.breaker.dailyPnl = (s.counted.map DatedTrade.pnl).sum
  suffix : s.counted <:+ s.trades
  sorted : s.trades.Pairwise fun x y => x.time ≤ y.time
  past : ∀ trade ∈ s.trades, trade.time ≤ s.clock
  trip : s.breaker.tripped = true →
    s.trippedAt ≤ s.clock ∧ ∃ trade ∈ s.counted, trade.time ≤ s.trippedAt

variable {s : BreakerDiary} {now : TimePoint} {offset : Int}

theorem calendarDay_mono {t t' : TimePoint} (h : t ≤ t') :
    calendarDay offset t ≤ calendarDay offset t' :=
  dayOf_mono (CircuitBreaker.toTimeT_mono h)

theorem Counts.new (capital : ℚ) (start : TimePoint) : Counts (.new capital start) where
  limit := by simp only [BreakerDiary.new, CircuitBreaker.new]; norm_num
  tradeCount := rfl
  dailyPnl := rfl
  suffix := List.suffix_refl _
  sorted := List.Pairwise.nil
  past := by simp [BreakerDiary.new]
  trip := by rintro ⟨⟩

theorem Counts.check (h : Counts s) (hclock : s.clock ≤ now) : Counts (s.check now) := by
  have hpast : ∀ trade ∈ s.trades, trade.time ≤ now := fun trade ht => (h.past trade ht).trans hclock
  unfold BreakerDiary.check
  by_cases hday : CircuitBreaker.NewDay s.breaker.lastReset now
  · rw [CircuitBreaker.checkAndResetDaily_of_newDay hday, if_pos hday]
    exact ⟨h.limit, rfl, rfl, List.nil_suffix, h.sorted, hpast, by rintro ⟨⟩⟩
  · rw [CircuitBreaker.checkAndResetDaily_of_not_newDay hday, if_neg hday]
    exact ⟨h.limit, h.tradeCount, h.dailyPnl, h.suffix, h.sorted, hpast,
      fun htripped => ⟨(h.trip htripped).1.trans hclock, (h.trip htripped).2⟩⟩

/-- Without a trade counted there is no loss to trip for. -/
theorem Counts.counted_of_loss (h : Counts s)
    (hloss : s.breaker.dailyLossLimit ≤ -s.breaker.dailyPnl / s.breaker.initialCapital) :
    ∃ trade, trade ∈ s.counted := by
  apply List.exists_mem_of_ne_nil
  intro hnil
  rw [h.dailyPnl, hnil, List.map_nil, List.sum_nil, neg_zero, zero_div] at hloss
  exact absurd h.limit (not_lt.2 hloss)

theorem Counts.canTrade (h : Counts s) (hclock : s.clock ≤ now) : Counts (s.step (.canTrade now)) := by
  have hchecked := h.check hclock
  by_cases hstops : s.breaker.StopsForLoss now
  · rw [step, CircuitBreaker.canTrade_of_stopsForLoss hstops]
    refine ⟨hchecked.limit, hchecked.tradeCount, hchecked.dailyPnl, hchecked.suffix, hchecked.sorted,
      hchecked.past, fun _ => ?_⟩
    cases htripped : (s.check now).breaker.tripped with
    | true =>
      simp only [Bool.not_true, Bool.and_false, Bool.false_eq_true, if_false]
      exact hchecked.trip htripped
    | false =>
      have hloss := hstops.resolve_left (by rw [← Bool.not_eq_true] at htripped; exact htripped)
      obtain ⟨trade, htrade⟩ := hchecked.counted_of_loss hloss
      refine ⟨by simp [BreakerDiary.check], trade, htrade, ?_⟩
      simpa [BreakerDiary.check] using hchecked.past trade (hchecked.suffix.subset htrade)
  · have hquiet := (not_or.1 hstops).1
    rw [step, CircuitBreaker.canTrade_of_not_stopsForLoss hstops]
    exact ⟨hchecked.limit, hchecked.tradeCount, hchecked.dailyPnl, hchecked.suffix, hchecked.sorted,
      hchecked.past, fun htripped => absurd htripped hquiet⟩

theorem Counts.recordTrade (h : Counts s) (hclock : s.clock ≤ now) (pnl : ℚ) :
    Counts (s.step (.recordTrade now pnl)) := by
  refine ⟨h.limit, ?_, ?_, ?_, ?_, ?_, fun htripped => ?_⟩
  · simp [step, CircuitBreaker.recordTrade, h.tradeCount]
  · simp [step, CircuitBreaker.recordTrade, h.dailyPnl]
  · exact List.suffix_append_inj_of_length_eq rfl |>.2 ⟨h.suffix, rfl⟩
  · refine List.pairwise_append.2 ⟨h.sorted, List.pairwise_singleton _ _, fun x hx y hy => ?_⟩
    rw [List.mem_singleton.1 hy]
    exact (h.past x hx).trans hclock
  · intro trade htrade
    rcases List.mem_append.1 htrade with htrade | htrade
    · exact (h.past trade htrade).trans hclock
    · rw [List.mem_singleton.1 htrade]
      exact le_refl now
  · obtain ⟨hat, trade, htrade, hle⟩ := h.trip htripped
    exact ⟨hat.trans hclock, trade, List.mem_append_left _ htrade, hle⟩

theorem Counts.step (x : DatedCall) (h : Counts s) (hx : ClockForward s x) : Counts (s.step x) := by
  cases x with
  | canTrade now => exact h.canTrade hx
  | recordTrade now pnl => exact h.recordTrade hx pnl
  | reset now =>
    exact ⟨h.limit, rfl, rfl, List.nil_suffix, h.sorted,
      fun trade htrade => (h.past trade htrade).trans hx, by rintro ⟨⟩⟩

/-! ## The day of a query -/

/-- The trades of a day come after a counted one of an earlier day, so that more are counted than
there are on that day. -/
theorem Counts.length_tradesOn_lt (h : Counts s) (hclock : s.clock ≤ now) {trade : DatedTrade}
    (htrade : trade ∈ s.counted) (hday : calendarDay offset trade.time ≠ calendarDay offset now) :
    (s.tradesOn offset now).length < s.counted.length := by
  have hbefore : calendarDay offset trade.time < calendarDay offset now :=
    lt_of_le_of_ne (calendarDay_mono ((h.past trade (h.suffix.subset htrade)).trans hclock)) hday
  obtain ⟨earlier, hearlier⟩ := h.suffix
  have hsorted := h.sorted
  rw [← hearlier] at hsorted
  have hnone : earlier.filter (fun x => calendarDay offset x.time = calendarDay offset now) = [] := by
    rw [List.filter_eq_nil_iff]
    intro x hx hxday
    have hle : calendarDay offset x.time ≤ calendarDay offset trade.time :=
      calendarDay_mono ((List.pairwise_append.1 hsorted).2.2 x hx trade htrade)
    rw [decide_eq_true_eq] at hxday
    omega
  rw [tradesOn, ← hearlier, List.filter_append, hnone, List.nil_append,
    List.length_filter_lt_length_iff_exists]
  exact ⟨trade, htrade, by simpa using hday⟩

/-- The counters are those of trades of one day exactly if all trades counted are of that day. -/
theorem Counts.today_iff (h : Counts s) (hclock : s.clock ≤ now) :
    Today offset s now ↔
      ∀ trade ∈ s.counted, calendarDay offset trade.time = calendarDay offset now := by
  constructor
  · rintro ⟨⟨trades, hsub, hcount, -⟩, -⟩ trade htrade
    by_contra hday
    have hlt := h.length_tradesOn_lt hclock htrade hday
    have hlength := hsub.length_le
    rw [h.tradeCount] at hcount
    omega
  · intro hall
    have hcounted : s.counted.filter
        (fun x => calendarDay offset x.time = calendarDay offset now) = s.counted := by
      rw [List.filter_eq_self]
      intro trade htrade
      simpa using hall trade htrade
    refine ⟨⟨s.counted, ?_, h.tradeCount, h.dailyPnl⟩, fun htripped => ?_⟩
    · rw [← hcounted]
      exact h.suffix.sublist.filter _
    · obtain ⟨hat, trade, htrade, hle⟩ := h.trip htripped
      have hlow : calendarDay offset trade.time ≤ calendarDay offset s.trippedAt :=
        calendarDay_mono hle
      have hhigh : calendarDay offset s.trippedAt ≤ calendarDay offset now :=
        calendarDay_mono (hat.trans hclock)
      have hday := hall trade htrade
      omega

/-- **Days of the breaker.** On every run with a clock that does not go back, all queries decide on
trades and trips of their own calendar day if and only if every query comes 86400 seconds after the
counters were cleared by the clock, or finds only trades of its day counted. -/
theorem decidesOnToday_iff (offset : Int) (capital : ℚ) (start : TimePoint) (xs : List DatedCall)
    (hclock : Guarded step ClockForward (.new capital start) xs) :
    Guarded step (DecidesOnToday offset) (.new capital start) xs ↔
      Guarded step (ClearsOrFindsToday offset) (.new capital start) xs := by
  have hall : Throughout step Counts (.new capital start) xs :=
    throughout_of_guarded (H := fun _ => True) (fun s x _ h hx => h.step x hx) (fun _ _ => trivial)
      (Counts.new capital start) hclock
  refine forall_congr' fun ys => forall_congr' fun x => forall_congr' fun hys => ?_
  have hcounts := hall ys ((List.prefix_append ys [x]).trans hys)
  have hforward := hclock ys x hys
  generalize run step (new capital start) ys = s at hcounts hforward ⊢
  cases x with
  | recordTrade now pnl => exact Iff.rfl
  | reset now => exact Iff.rfl
  | canTrade now =>
    rw [DecidesOnToday, (hcounts.check hforward).today_iff (le_refl now), ClearsOrFindsToday]
    by_cases hday : CircuitBreaker.NewDay s.breaker.lastReset now
    · simp [check, hday]
    · simp [check, hday]

/-- A trade at three in the afternoon, and a query at half past nine on the next morning. -/
def overnight : List DatedCall := [.recordTrade 54000000000000 (-100), .canTrade 120600000000000]

theorem overnight_clockForward {start : TimePoint} (h : start ≤ 54000000000000) :
    Guarded step ClockForward (.new 100000 start) overnight := by
  simp [overnight, ClockForward, step, new, h]

/-- Started at noon, the breaker still counts the trade on the next morning. -/
theorem overnight_not_decidesOnToday :
    Guarded step ClockForward (.new 100000 43200000000000) overnight ∧
      ¬ Guarded step (DecidesOnToday 0) (.new 100000 43200000000000) overnight := by
  refine ⟨overnight_clockForward (by norm_num), fun h => ?_⟩
  obtain ⟨⟨trades, hsub, hcount, -⟩, -⟩ :=
    h [.recordTrade 54000000000000 (-100)] (.canTrade 120600000000000) (List.prefix_refl _)
  have hnone : tradesOn 0 (((run step (new 100000 43200000000000)
      [.recordTrade 54000000000000 (-100)])).check 120600000000000) 120600000000000 = [] := by
    decide +kernel
  rw [hnone, List.sublist_nil] at hsub
  rw [hsub] at hcount
  exact absurd hcount (by decide +kernel)

/-- Started at half past nine, it has cleared its counters by then. -/
theorem overnight_decidesOnToday :
    Guarded step (DecidesOnToday 0) (.new 100000 34200000000000) overnight := by
  refine (decidesOnToday_iff 0 100000 34200000000000 overnight
    (overnight_clockForward (by norm_num))).2 ?_
  exact guarded_cons.2 ⟨trivial, guarded_cons.2 ⟨Or.inl (by decide +kernel), guarded_nil⟩⟩

end BreakerDiary

end TradingTerminal
