import TradingTerminal.Lib.Calendar
import Mathlib.Order.Bounds.Basic

/-!
# Market hours

`live/market_hours.hpp`, at a constant offset from UTC. An instant is what `system_clock::to_time_t`
gives, in whole seconds. `seconds_until_open` always goes to the next calendar day, so that it finds
the next opening exactly when the market is open, or when tomorrow is a trading day and today's
session is not still to come (`isLeast_secondsUntilOpen_iff`).
-/

namespace TradingTerminal.MarketHours

open Lib.Calendar

def isMarketOpen (offset t : Int) : Bool :=
  let localTm := localtime offset t
  if localTm.wday = 0 ∨ localTm.wday = 6 then false
  else
    let currentSeconds := localTm.hour * 3600 + localTm.min * 60
    let openSeconds := 9 * 3600 + 30 * 60
    let closeSeconds := 16 * 3600
    currentSeconds ≥ openSeconds && currentSeconds < closeSeconds

def secondsUntilOpen (offset t : Int) : Int :=
  if isMarketOpen offset t then 0
  else
    let tm := localtime offset t
    let nextOpen := mktime offset { tm with hour := 9, min := 30, sec := 0, mday := tm.mday + 1 }
    nextOpen - t

/-! ## Sessions -/

/-- Monday to Friday. -/
def TradingDay (n : Int) : Prop := weekday n ≠ 0 ∧ weekday n ≠ 6

instance (n : Int) : Decidable (TradingDay n) := inferInstanceAs (Decidable (_ ∧ _))

/-- Between the open of a trading day, at 34200 seconds, and its close at 57600. -/
structure InSession (offset t : Int) : Prop where
  tradingDay : TradingDay (dayOf offset t)
  opened : 34200 ≤ secondOfDay offset t
  closes : secondOfDay offset t < 57600

/-- On a trading day before its open. -/
structure BeforeSession (offset t : Int) : Prop where
  tradingDay : TradingDay (dayOf offset t)
  ahead : secondOfDay offset t < 34200

variable {offset t : Int}

/-- The seconds of the minute do not matter, as open and close are full minutes. -/
theorem isMarketOpen_iff : isMarketOpen offset t = true ↔ InSession offset t := by
  have hbounds := secondOfDay_bounds offset t
  have hminutes : secondOfDay offset t / 3600 * 3600 + secondOfDay offset t / 60 % 60 * 60 =
      secondOfDay offset t - secondOfDay offset t % 60 := by
    omega
  unfold isMarketOpen localtime
  dsimp only
  rw [hminutes]
  constructor
  · intro hopen
    split at hopen
    · cases hopen
    · next hday =>
      rw [Bool.and_eq_true, decide_eq_true_eq, decide_eq_true_eq] at hopen
      exact ⟨not_or.1 hday, by omega, by omega⟩
  · rintro ⟨hday, hopened, hcloses⟩
    rw [if_neg (not_or.2 hday), Bool.and_eq_true, decide_eq_true_eq, decide_eq_true_eq]
    omega

theorem secondsUntilOpen_of_open (h : InSession offset t) : secondsUntilOpen offset t = 0 :=
  if_pos (isMarketOpen_iff.2 h)

/-- Outside the sessions it is the time to half past nine of the next calendar day. -/
theorem secondsUntilOpen_of_closed (h : ¬ InSession offset t) :
    secondsUntilOpen offset t = 86400 + 34200 - secondOfDay offset t := by
  have hnext := mktime_localtime offset t 1 0 30 9
  have ht := eq_of_dayOf offset t
  unfold secondsUntilOpen
  rw [if_neg fun hopen => h (isMarketOpen_iff.1 hopen)]
  dsimp only at hnext ⊢
  omega

/-- The result fits an `int`. -/
theorem secondsUntilOpen_bounds : 0 ≤ secondsUntilOpen offset t ∧ secondsUntilOpen offset t < 2 ^ 31 := by
  have hbounds := secondOfDay_bounds offset t
  by_cases h : InSession offset t
  · rw [secondsUntilOpen_of_open h]
    omega
  · rw [secondsUntilOpen_of_closed h]
    omega

/-- A later instant of the same day, or one of the days after it. -/
theorem later_cases (offset t : Int) {d : Int} (hd : 0 ≤ d) :
    dayOf offset (t + d) = dayOf offset t ∧
        secondOfDay offset (t + d) = secondOfDay offset t + d ∨
      dayOf offset t + 1 ≤ dayOf offset (t + d) := by
  have hmono : dayOf offset t ≤ dayOf offset (t + d) := dayOf_mono (by omega)
  have ht := eq_of_dayOf offset t
  have hd := eq_of_dayOf offset (t + d)
  omega

theorem inSession_secondsUntilOpen (h : ¬ InSession offset t) :
    InSession offset (t + secondsUntilOpen offset t) ↔ TradingDay (dayOf offset t + 1) := by
  have hvalue := secondsUntilOpen_of_closed h
  have ht := eq_of_dayOf offset t
  have hday : dayOf offset (t + secondsUntilOpen offset t) = dayOf offset t + 1 := by
    unfold dayOf at *
    omega
  have hsecond : secondOfDay offset (t + secondsUntilOpen offset t) = 34200 := by
    have hsum := eq_of_dayOf offset (t + secondsUntilOpen offset t)
    omega
  constructor
  · intro hin
    exact hday ▸ hin.tradingDay
  · intro htrading
    exact ⟨hday ▸ htrading, hsecond ▸ le_refl _, by omega⟩

/-- **The next opening.** At every instant and offset, `seconds_until_open` is the least number of
seconds after which the market is open if and only if the market is open, or tomorrow is a trading
day and today's session is not still to come. -/
theorem isLeast_secondsUntilOpen_iff (offset t : Int) :
    IsLeast {d | 0 ≤ d ∧ isMarketOpen offset (t + d) = true} (secondsUntilOpen offset t) ↔
      InSession offset t ∨ TradingDay (dayOf offset t + 1) ∧ ¬ BeforeSession offset t := by
  simp only [isMarketOpen_iff]
  by_cases hin : InSession offset t
  · refine iff_of_true ?_ (Or.inl hin)
    rw [secondsUntilOpen_of_open hin]
    exact ⟨⟨le_refl 0, by rwa [Int.add_zero]⟩, fun d hd => hd.1⟩
  · have hvalue := secondsUntilOpen_of_closed hin
    have hbounds := secondOfDay_bounds offset t
    rw [or_iff_right hin]
    constructor
    · rintro ⟨⟨-, hopen⟩, hleast⟩
      refine ⟨(inSession_secondsUntilOpen hin).1 hopen, fun hbefore => ?_⟩
      -- today's open comes first
      have hahead := hbefore.ahead
      have hd : 0 ≤ 34200 - secondOfDay offset t := by omega
      have htoday : InSession offset (t + (34200 - secondOfDay offset t)) := by
        have ht := eq_of_dayOf offset t
        have hday : dayOf offset (t + (34200 - secondOfDay offset t)) = dayOf offset t := by
          unfold dayOf at *
          omega
        have hsum := eq_of_dayOf offset (t + (34200 - secondOfDay offset t))
        exact ⟨hday ▸ hbefore.tradingDay, by omega, by omega⟩
      have hle := hleast ⟨hd, htoday⟩
      omega
    · rintro ⟨htomorrow, hbefore⟩
      refine ⟨⟨secondsUntilOpen_bounds.1, (inSession_secondsUntilOpen hin).2 htomorrow⟩, ?_⟩
      rintro d ⟨hd, hopen⟩
      have hopened := hopen.opened
      have hcloses := hopen.closes
      rcases later_cases offset t hd with ⟨hday, hsecond⟩ | hday
      · -- today's session is neither under way nor to come
        exfalso
        have htoday : TradingDay (dayOf offset t) := hday ▸ hopen.tradingDay
        have hopened' : 34200 ≤ secondOfDay offset t :=
          not_lt.1 fun hlt => hbefore ⟨htoday, hlt⟩
        exact hin ⟨htoday, hopened', by omega⟩
      · have ht := eq_of_dayOf offset t
        have hsum := eq_of_dayOf offset (t + d)
        omega

/-- At eight on a Monday morning the market opens in an hour and a half, and the opening of Tuesday is
named. -/
theorem secondsUntilOpen_not_isLeast :
    secondsUntilOpen (-18000) 1705323600 = 91800 ∧
      ¬ IsLeast {d | 0 ≤ d ∧ isMarketOpen (-18000) (1705323600 + d) = true}
        (secondsUntilOpen (-18000) 1705323600) := by
  refine ⟨by decide +kernel, fun h => ?_⟩
  have hle : secondsUntilOpen (-18000) 1705323600 ≤ 5400 :=
    h.2 ⟨by decide, by decide +kernel⟩
  exact absurd hle (by decide +kernel)

end TradingTerminal.MarketHours
