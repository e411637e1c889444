import TradingTerminal.Live.MarketHours
import Mathlib.Data.Nat.Find

/-!
# Waiting for the opening

`main` does not connect to an exchange while the market is closed: it tests the clock every half
minute, until the market is open or the program is told to stop. As long as the tests are no further
apart than a session is long, trading begins in the session that opens next (`opening_next`).
-/

namespace TradingTerminal.MarketHours

open Lib.Calendar

/-- A turn of the waiting loop: the clock, and `g_running` at the test of the loop and after it. -/
structure Poll where
  now : Int
  running : Bool
  runningAfter : Bool
  stays : running = false → runningAfter = false

/-- What `main` has come to before it connects. -/
inductive Opening where
  | waiting
  | returned
  | trading (since : Int)
  deriving DecidableEq, Repr

/-- The loop, and the test of `g_running` behind it. -/
def waitForOpen (offset : Int) : List Poll → Opening
  | [] => .waiting
  | poll :: polls =>
    if poll.running && !isMarketOpen offset poll.now then waitForOpen offset polls
    else if !poll.runningAfter then .returned
    else .trading poll.now

/-- `main` up to the connection, with the exchange it is asked for and the time it is started at. -/
def opening (exchange : String) (offset now : Int) (polls : List Poll) : Opening :=
  if exchange ≠ "binance" && !isMarketOpen offset now then waitForOpen offset polls
  else .trading now

variable {offset t next : Int}

/-! ## The loop -/

theorem inSession_of_waitForOpen {polls : List Poll} (h : waitForOpen offset polls = .trading t) :
    InSession offset t := by
  induction polls with
  | nil => cases h
  | cons poll polls ih =>
    rw [waitForOpen] at h
    split at h
    · exact ih h
    · next hleft =>
      split at h
      · cases h
      · next hafter =>
        obtain rfl := Opening.trading.inj h
        have hrunning : poll.running = true := by
          by_contra hstopped
          exact hafter (by rw [poll.stays (by simpa using hstopped)]; rfl)
        rw [hrunning, Bool.true_and] at hleft
        exact isMarketOpen_iff.1 (by simpa using hleft)

/-- Turns on which the market is closed are passed over. -/
theorem waitForOpen_append {polls : List Poll} (poll : Poll)
    (hclosed : ∀ p ∈ polls, p.running = true ∧ ¬ InSession offset p.now) :
    waitForOpen offset (polls ++ [poll]) = waitForOpen offset [poll] := by
  induction polls with
  | nil => rfl
  | cons p polls ih =>
    obtain ⟨⟨hrunning, hnot⟩, hrest⟩ := List.forall_mem_cons.1 hclosed
    have hfalse : isMarketOpen offset p.now = false := by
      rw [← Bool.not_eq_true, isMarketOpen_iff]
      exact hnot
    rw [List.cons_append, waitForOpen, hrunning, hfalse]
    exact ih hrest

theorem waitForOpen_of_open {poll : Poll} (hafter : poll.runningAfter = true)
    (hopen : InSession offset poll.now) : waitForOpen offset [poll] = .trading poll.now := by
  simp [waitForOpen, isMarketOpen_iff.2 hopen, hafter]

/-! ## The next session -/

/-- Of three days in a row one is a trading day. -/
theorem exists_tradingDay (n : Int) : ∃ k : Nat, k < 3 ∧ TradingDay (n + k) := by
  unfold TradingDay weekday
  by_cases h0 : (n + 4) % 7 ≠ 0 ∧ (n + 4) % 7 ≠ 6
  · exact ⟨0, by omega, by simpa using h0⟩
  · by_cases h1 : (n + 4) % 7 = 0
    · exact ⟨1, by omega, by omega, by omega⟩
    · exact ⟨2, by omega, by omega, by omega⟩

/-- The open of a day is in a session if it is a trading day. -/
theorem inSession_open {n : Int} (h : TradingDay n) :
    InSession offset (n * 86400 + 34200 - offset) := by
  have hday : dayOf offset (n * 86400 + 34200 - offset) = n := by
    unfold dayOf
    omega
  have hsecond : secondOfDay offset (n * 86400 + 34200 - offset) = 34200 := by
    unfold secondOfDay
    omega
  exact ⟨by rwa [hday], hsecond.ge, by omega⟩

/-- There is a next instant at which the market is open. -/
theorem exists_next (offset t : Int) :
    ∃ next, IsLeast {t' | t ≤ t' ∧ isMarketOpen offset t' = true} next := by
  have hsome : ∃ d : Nat, InSession offset (t + d) := by
    obtain ⟨k, -, htrading⟩ := exists_tradingDay (dayOf offset t + 1)
    have ht := eq_of_dayOf offset t
    have hbounds := secondOfDay_bounds offset t
    have hopen : InSession offset _ := inSession_open htrading
    refine ⟨((dayOf offset t + 1 + k) * 86400 + 34200 - offset - t).toNat, ?_⟩
    rwa [Int.toNat_of_nonneg (by omega), add_sub_cancel]
  classical
  refine ⟨t + Nat.find hsome, ⟨by omega, isMarketOpen_iff.2 (Nat.find_spec hsome)⟩, ?_⟩
  rintro t' ⟨hle, hopen⟩
  have hmin : Nat.find hsome ≤ (t' - t).toNat := by
    apply Nat.find_min'
    rw [Int.toNat_of_nonneg (by omega), add_sub_cancel]
    exact isMarketOpen_iff.1 hopen
  omega

/-- If the market is closed it opens at the beginning of a session. -/
theorem secondOfDay_next (hclosed : ¬ InSession offset t)
    (hnext : IsLeast {t' | t ≤ t' ∧ isMarketOpen offset t' = true} next) :
    t < next ∧ secondOfDay offset next = 34200 := by
  obtain ⟨⟨hle, hopen⟩, hleast⟩ := hnext
  have hin := isMarketOpen_iff.1 hopen
  have hlt : t < next := by
    rcases hle.lt_or_eq with hlt | rfl
    · exact hlt
    · exact absurd hin hclosed
  refine ⟨hlt, ?_⟩
  by_contra hlater
  have hopened := hin.opened
  have hcloses := hin.closes
  have hday : dayOf offset (next - 1) = dayOf offset next := by
    unfold dayOf secondOfDay at *
    omega
  have hsecond : secondOfDay offset (next - 1) = secondOfDay offset next - 1 := by
    unfold dayOf secondOfDay at *
    omega
  -- the second before would be open too
  have hbefore : InSession offset (next - 1) :=
    ⟨hday ▸ hin.tradingDay, by omega, by omega⟩
  have hleNext := hleast ⟨by omega, isMarketOpen_iff.2 hbefore⟩
  omega

/-- A session lasts for six and a half hours. -/
theorem inSession_within (hin : InSession offset next) (hsecond : secondOfDay offset next = 34200)
    (hle : next ≤ t) (hlt : t < next + 23400) : InSession offset t := by
  have hday : dayOf offset t = dayOf offset next := by
    unfold dayOf secondOfDay at *
    omega
  have hlater : secondOfDay offset t = secondOfDay offset next + (t - next) := by
    unfold dayOf secondOfDay at *
    omega
  exact ⟨hday ▸ hin.tradingDay, by omega, by omega⟩

/-- Growing numbers come past every bound, and one of them does so first. -/
theorem exists_first {x : Nat → Int} (hgrows : ∀ n, x n < x (n + 1)) (bound : Int) :
    ∃ n, bound ≤ x n ∧ ∀ k < n, x k < bound := by
  have hfar : ∀ n : Nat, x 0 + n ≤ x n := by
    intro n
    induction n with
    | zero => simp
    | succ n ih =>
      have := hgrows n
      push_cast
      omega
  have hsome : ∃ n, bound ≤ x n := by
    refine ⟨(bound - x 0).toNat, ?_⟩
    have := hfar (bound - x 0).toNat
    omega
  classical
  refine ⟨Nat.find hsome, Nat.find_spec hsome, fun k hk => ?_⟩
  exact not_le.1 (Nat.find_min hsome hk)

/-! ## The start -/

theorem opening_eq {exchange : String} (hexchange : exchange ≠ "binance") (offset now : Int)
    (polls : List Poll) :
    opening exchange offset now polls =
      if isMarketOpen offset now then .trading now else waitForOpen offset polls := by
  unfold opening
  cases isMarketOpen offset now <;> simp [hexchange]

/-- Trading begins in a session. -/
theorem inSession_of_opening {exchange : String} (hexchange : exchange ≠ "binance")
    {now : Int} {polls : List Poll} (h : opening exchange offset now polls = .trading t) :
    InSession offset t := by
  rw [opening_eq hexchange] at h
  split at h
  · next hopen =>
    obtain rfl := Opening.trading.inj h
    exact isMarketOpen_iff.1 hopen
  · exact inSession_of_waitForOpen h

/-- **Waiting for the opening.** On every exchange but `binance`, trading begins at an instant in a
session, whenever the clock is tested and the program is stopped. If it is not stopped and the tests
are never further apart than `gap`, within the length of a session, it begins less than `gap` after
the market next opens. -/
theorem opening_next {exchange : String} (hexchange : exchange ≠ "binance") (offset now : Int) :
    (∀ polls t, opening exchange offset now polls = .trading t → InSession offset t) ∧
      ∀ (polls : Nat → Poll) (gap : Int), gap ≤ 23400 → (∀ n, (polls n).runningAfter = true) →
        now ≤ (polls 0).now → (polls 0).now ≤ now + gap →
        (∀ n, (polls n).now < (polls (n + 1)).now ∧ (polls (n + 1)).now ≤ (polls n).now + gap) →
        ∃ next n t, IsLeast {t | now ≤ t ∧ isMarketOpen offset t = true} next ∧
          opening exchange offset now ((List.range n).map polls) = .trading t ∧
          next ≤ t ∧ t < next + gap := by
  constructor
  · exact fun polls t h => inSession_of_opening hexchange h
  · intro polls gap hgap hrunning hstart hfirst hturns
    obtain ⟨next, hnext⟩ := exists_next offset now
    by_cases hopen : isMarketOpen offset now = true
    · have hturn := hturns 0
      have hle := hnext.1.1
      refine ⟨next, 0, now, hnext, ?_, hnext.2 ⟨le_refl now, hopen⟩, by omega⟩
      rw [opening_eq hexchange, if_pos hopen]
    · have hclosed : ¬ InSession offset now := fun hin => hopen (isMarketOpen_iff.2 hin)
      obtain ⟨hlater, hsecond⟩ := secondOfDay_next hclosed hnext
      obtain ⟨n, hpast, hbefore⟩ := exists_first (fun n => (hturns n).1) next
      have hsoon : (polls n).now < next + gap := by
        cases n with
        | zero => omega
        | succ m =>
          have hm := hbefore m (Nat.lt_succ_self m)
          have hturn := hturns m
          omega
      have hin : InSession offset (polls n).now :=
        inSession_within (isMarketOpen_iff.1 hnext.1.2) hsecond hpast (by omega)
      refine ⟨next, n + 1, (polls n).now, hnext, ?_, hpast, hsoon⟩
      have hearlier : ∀ p ∈ (List.range n).map polls,
          p.running = true ∧ ¬ InSession offset p.now := by
        intro p hp
        obtain ⟨k, hk, rfl⟩ := List.mem_map.1 hp
        constructor
        · by_contra hstopped
          have hcleared := (polls k).stays (by simpa using hstopped)
          rw [hrunning k] at hcleared
          cases hcleared
        · intro hsession
          have hmono : (polls 0).now ≤ (polls k).now :=
            (strictMono_nat_of_lt_succ fun n => (hturns n).1).monotone (Nat.zero_le k)
          have hleast := hnext.2 ⟨hstart.trans hmono, isMarketOpen_iff.2 hsession⟩
          have hk := hbefore k (List.mem_range.1 hk)
          omega
      rw [opening_eq hexchange, if_neg hopen, List.range_succ, List.map_append, List.map_singleton,
        waitForOpen_append _ hearlier, waitForOpen_of_open (hrunning n) hin]

/-- Tests every half minute, from one second after the start on. -/
def halfMinutes (now : Int) (n : Nat) : Poll :=
  { now := now + 1 + 30 * n, running := true, runningAfter := true, stays := fun h => h }

/-- Started at eight on a Monday morning, trading begins within half a minute of half past nine. -/
theorem mondayMorning_opening :
    (∀ polls t, opening "alpaca" (-18000) 1705323600 polls = .trading t → InSession (-18000) t) ∧
      ∃ next n t, IsLeast {t | 1705323600 ≤ t ∧ isMarketOpen (-18000) t = true} next ∧
        opening "alpaca" (-18000) 1705323600 ((List.range n).map (halfMinutes 1705323600)) =
          .trading t ∧ next ≤ t ∧ t < next + 30 := by
  obtain ⟨hsafe, hlive⟩ := opening_next (by decide : "alpaca" ≠ "binance") (-18000) 1705323600
  refine ⟨hsafe, hlive (halfMinutes 1705323600) 30 (by decide) (fun _ => rfl) ?_ ?_ ?_⟩
  · decide
  · decide
  · intro n
    simp only [halfMinutes]
    push_cast
    omega

end TradingTerminal.MarketHours
