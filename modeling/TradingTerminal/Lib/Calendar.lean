import Mathlib.Algebra.BigOperators.Group.List.Basic
import Mathlib.Algebra.GroupWithZero.Nat
import Mathlib.Algebra.Ring.Int.Defs

/-!
# Calendar time

Days are numbered from 1970-01-01, a Thursday, and dates are those of the Gregorian calendar extended
in both directions. `localtime` breaks an instant down at a constant offset from UTC, and `mktime`
puts broken-down time together again; like that of the C library it accepts fields out of their
ranges. `mktime_localtime` is what this means for the day: it may be moved on freely, over the ends
of months and years.
-/

namespace TradingTerminal.Lib.Calendar

/-! ## Years and months -/

def IsLeap (year : Int) : Prop := year % 4 = 0 ∧ (year % 100 ≠ 0 ∨ year % 400 = 0)

instance (year : Int) : Decidable (IsLeap year) := inferInstanceAs (Decidable (_ ∧ _))

def yearLength (year : Int) : Nat := if IsLeap year then 366 else 365

/-- The lengths of the months, January first. -/
def monthLengths (year : Int) : List Nat :=
  [31, if IsLeap year then 29 else 28, 31, 30, 31, 30, 31, 31, 30, 31, 30, 31]

/-- The days from 0001-01-01 to the first day of a year. -/
def daysBeforeYear (year : Int) : Int :=
  365 * (year - 1) + (year - 1) / 4 - (year - 1) / 100 + (year - 1) / 400

theorem daysBeforeYear_succ (year : Int) :
    daysBeforeYear (year + 1) = daysBeforeYear year + yearLength year := by
  unfold yearLength
  split
  · next h =>
    unfold IsLeap at h
    unfold daysBeforeYear
    omega
  · next h =>
    unfold IsLeap at h
    unfold daysBeforeYear
    omega

theorem sum_monthLengths (year : Int) : (monthLengths year).sum = yearLength year := by
  unfold monthLengths yearLength
  split <;> rfl

/-- The year that contains a day, given by its distance from 0001-01-01. An average year has
146097 / 400 days, and the year estimated with it is off by one at most. -/
def yearOf (days : Int) : Int :=
  let year := days * 400 / 146097 + 1
  if days < daysBeforeYear year then year - 1
  else if daysBeforeYear (year + 1) ≤ days then year + 1
  else year

theorem yearOf_spec (days : Int) :
    daysBeforeYear (yearOf days) ≤ days ∧ days < daysBeforeYear (yearOf days + 1) := by
  unfold yearOf
  dsimp only
  generalize hyear : days * 400 / 146097 + 1 = year
  have hlow : 146097 * (year - 1) ≤ days * 400 := by omega
  have hhigh : days * 400 < 146097 * year := by omega
  split
  · unfold daysBeforeYear at *
    omega
  · split
    · unfold daysBeforeYear at *
      omega
    · unfold daysBeforeYear at *
      omega

/-- Where the `n`-th day lies in a row of months: the month and the days before it there. -/
def locate : List Nat → Nat → Nat × Nat
  | [], n => (0, n)
  | len :: rest, n =>
    if n < len then (0, n) else ((locate rest (n - len)).1 + 1, (locate rest (n - len)).2)

theorem locate_sum (lengths : List Nat) (n : Nat) :
    (lengths.take (locate lengths n).1).sum + (locate lengths n).2 = n := by
  induction lengths generalizing n with
  | nil => simp [locate]
  | cons len rest ih =>
    rw [locate]
    split
    · simp
    · have hrest := ih (n - len)
      rw [List.take_succ_cons, List.sum_cons]
      omega

theorem locate_lt (lengths : List Nat) {n : Nat} (h : n < lengths.sum) :
    (locate lengths n).2 < lengths.getD (locate lengths n).1 0 ∧
      (locate lengths n).1 < lengths.length := by
  induction lengths generalizing n with
  | nil => simp at h
  | cons len rest ih =>
    rw [locate]
    split
    · next hlt => exact ⟨by simpa using hlt, by simp⟩
    · rw [List.sum_cons] at h
      obtain ⟨hday, hmonth⟩ := ih (n := n - len) (by omega)
      exact ⟨by simpa using hday, by simpa using hmonth⟩

/-! ## Dates -/

/-- A date of the calendar; months count from zero, days from one. -/
structure CivilDate where
  year : Int
  month : Nat
  day : Nat
  month_lt : month < 12
  day_pos : 0 < day
  day_le : day ≤ (monthLengths year).getD month 0

/-- The days from 0001-01-01 to 1970-01-01. -/
def epoch : Int := 719162

/-- The number of a day; the month and the day may lie out of their ranges. -/
def dayNumber (year month day : Int) : Int :=
  let year := year + month / 12
  daysBeforeYear year + ((monthLengths year).take (month % 12).toNat).sum + (day - 1) - epoch

/-- The days of its year before a day. -/
def dayOfYear (n : Int) : Nat := (n + epoch - daysBeforeYear (yearOf (n + epoch))).toNat

theorem dayOfYear_lt (n : Int) : dayOfYear n < (monthLengths (yearOf (n + epoch))).sum := by
  have hspec := yearOf_spec (n + epoch)
  rw [daysBeforeYear_succ] at hspec
  rw [sum_monthLengths, dayOfYear]
  omega

/-- The date of a day. -/
def civil (n : Int) : CivilDate where
  year := yearOf (n + epoch)
  month := (locate (monthLengths (yearOf (n + epoch))) (dayOfYear n)).1
  day := (locate (monthLengths (yearOf (n + epoch))) (dayOfYear n)).2 + 1
  month_lt := (locate_lt _ (dayOfYear_lt n)).2
  day_pos := Nat.succ_pos _
  day_le := (locate_lt _ (dayOfYear_lt n)).1

/-- Moving on from the date of a day moves on from the day. -/
theorem dayNumber_civil (n k : Int) :
    dayNumber (civil n).year (civil n).month ((civil n).day + k) = n + k := by
  have hmonth := (civil n).month_lt
  have hspec := (yearOf_spec (n + epoch)).1
  have hsum := locate_sum (monthLengths (yearOf (n + epoch))) (dayOfYear n)
  have hyear : (dayOfYear n : Int) = n + epoch - daysBeforeYear (yearOf (n + epoch)) := by
    unfold dayOfYear
    omega
  unfold dayNumber
  rw [show ((civil n).month : Int) / 12 = 0 by omega,
    show (((civil n).month : Int) % 12).toNat = (civil n).month by omega, Int.add_zero]
  unfold civil
  dsimp only
  omega

/-- The day of the week, Sunday being zero. -/
def weekday (n : Int) : Int := (n + 4) % 7

/-! ## Broken-down time -/

/-- The fields of `struct tm` that calendar time is made of. -/
structure Tm where
  sec : Int
  min : Int
  hour : Int
  mday : Int
  /-- months since January -/
  mon : Int
  /-- years since 1900 -/
  year : Int
  wday : Int
  deriving DecidableEq, Repr

/-- The number of the local day at an offset from UTC. -/
def dayOf (offset t : Int) : Int := (t + offset) / 86400

/-- The seconds since local midnight. -/
def secondOfDay (offset t : Int) : Int := (t + offset) % 86400

def localtime (offset t : Int) : Tm :=
  let date := civil (dayOf offset t)
  let second := secondOfDay offset t
  { sec := second % 60
    min := second / 60 % 60
    hour := second / 3600
    mday := date.day
    mon := date.month
    year := date.year - 1900
    wday := weekday (dayOf offset t) }

def mktime (offset : Int) (tm : Tm) : Int :=
  dayNumber (tm.year + 1900) tm.mon tm.mday * 86400 + tm.hour * 3600 + tm.min * 60 + tm.sec - offset

/-- A time of day, any number of days after the day of an instant. -/
theorem mktime_localtime (offset t k sec min hour : Int) :
    mktime offset { localtime offset t with
        sec, min, hour, mday := (localtime offset t).mday + k } =
      (dayOf offset t + k) * 86400 + hour * 3600 + min * 60 + sec - offset := by
  unfold mktime localtime
  dsimp only
  rw [Int.sub_add_cancel, dayNumber_civil]

theorem secondOfDay_bounds (offset t : Int) :
    0 ≤ secondOfDay offset t ∧ secondOfDay offset t < 86400 := by
  unfold secondOfDay
  omega

theorem eq_of_dayOf (offset t : Int) : t = dayOf offset t * 86400 + secondOfDay offset t - offset := by
  unfold dayOf secondOfDay
  omega

theorem dayOf_mono {offset t t' : Int} (h : t ≤ t') : dayOf offset t ≤ dayOf offset t' := by
  unfold dayOf
  omega

end TradingTerminal.Lib.Calendar
