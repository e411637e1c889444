import TradingTerminal.Live.OrderManager
import TradingTerminal.Lib.AtomicMax
import Mathlib.Algebra.Order.BigOperators.Group.List
import Mathlib.Algebra.GroupWithZero.Nat

/-!
# The latency counters under threads

`main.cpp` and `live/order_manager.hpp` keep a total and a maximum of the latencies in two atomic
variables: a thread adds its latency to the total, loads the maximum and raises it by
compare-and-swap. `OrderManager.settle` does all of it at once and takes the maximum. Here each
operation on an atomic variable is a step of its own, of any number of threads. When no thread is
under way the two counters are what the updates leave one after another (`settled_of_quiet`).

The counters are 64-bit words and the total wraps around; a latency measured across a clock that was
set back is a large one. The log `measured` holds the latencies in the order they were added.
-/

namespace TradingTerminal

open Lib

instance linearOrderUInt64 : LinearOrder UInt64 where
  le_refl := UInt64.le_refl
  le_trans _ _ _ := UInt64.le_trans
  lt_iff_le_not_ge a b := by
    rw [UInt64.le_iff_toNat_le, UInt64.le_iff_toNat_le, UInt64.lt_iff_toNat_lt]
    omega
  le_antisymm _ _ := UInt64.le_antisymm
  le_total := UInt64.le_total
  toDecidableLE := inferInstance
  toDecidableEq := inferInstance
  toDecidableLT := inferInstance

/-- The two counters; `added i` is the latency thread `i` has added and not yet compared. -/
structure LatencyCounters where
  totalLatencyUs : UInt64 := 0
  maxLatencyUs : AtomicMax UInt64 := { value := 0 }
  added : ℕ → Option UInt64 := fun _ => none
  measured : List UInt64 := []

/-- A thread adds a latency, loads the maximum, or tries its exchange. -/
inductive LatencyAction where
  | add (i : ℕ) (latency : UInt64)
  | load (i seen : ℕ)
  | exchange (i : ℕ) (spurious : Bool) (seen : ℕ)

namespace LatencyCounters

/-- Thread `i` is between two measurements. -/
def Idle (c : LatencyCounters) (i : ℕ) : Prop := c.added i = none ∧ c.maxLatencyUs.calls i = none

instance (c : LatencyCounters) (i : ℕ) : Decidable (c.Idle i) := inferInstanceAs (Decidable (_ ∧ _))

def step (c : LatencyCounters) : LatencyAction → LatencyCounters
  | .add i latency =>
    if c.Idle i then
      { c with
        totalLatencyUs := c.totalLatencyUs + latency
        added := Function.update c.added i (some latency)
        measured := c.measured ++ [latency] }
    else c
  | .load i seen =>
    match c.added i with
    | none => c
    | some latency =>
      { c with
        maxLatencyUs := c.maxLatencyUs.step (.load i latency seen)
        added := Function.update c.added i none }
  | .exchange i spurious seen =>
    { c with maxLatencyUs := c.maxLatencyUs.step (.exchange i spurious seen) }

/-- Thread `i` has added `latency` and is not done with it. -/
def UnderWay (c : LatencyCounters) (i : ℕ) (latency : UInt64) : Prop :=
  c.added i = some latency ∨ ∃ prev, c.maxLatencyUs.calls i = some (latency, prev)

/-- The sum of what was measured, which may be more than the total holds. -/
def sum (c : LatencyCounters) : ℕ := (c.measured.map UInt64.toNat).sum

/-- The total is the sum of what was measured, the maximum is one of these latencies, and every
latency above it is still under way. -/
structure Kept (c : LatencyCounters) : Prop where
  linear : AtomicMax.Linear 0 c.maxLatencyUs
  apart : ∀ i latency, c.added i = some latency → c.maxLatencyUs.calls i = none
  total : c.totalLatencyUs = UInt64.ofNat c.sum
  known : ∀ i latency, c.UnderWay i latency → latency ∈ c.measured
  value : c.maxLatencyUs.value = 0 ∨ c.maxLatencyUs.value ∈ c.measured
  covered : ∀ latency ∈ c.measured,
    latency ≤ c.maxLatencyUs.value ∨ ∃ i, c.UnderWay i latency

theorem kept_start : Kept {} := by
  refine ⟨AtomicMax.linear_start 0, ?_, rfl, ?_, .inl rfl, ?_⟩ <;> simp [UnderWay]

variable {c : LatencyCounters}

theorem Kept.add (h : Kept c) {c' : LatencyCounters} {i : ℕ} (latency : UInt64) (hidle : c.Idle i)
    (htotal : c'.totalLatencyUs = c.totalLatencyUs + latency)
    (hmax : c'.maxLatencyUs = c.maxLatencyUs)
    (hadded : c'.added = Function.update c.added i (some latency))
    (hmeasured : c'.measured = c.measured ++ [latency]) : Kept c' := by
  have hself : c'.added i = some latency := by rw [hadded, Function.update_self]
  have hothers : ∀ j, j ≠ i → c'.added j = c.added j := fun j hj => by
    rw [hadded, Function.update_of_ne hj]
  refine ⟨hmax ▸ h.linear, ?_, ?_, ?_, ?_, ?_⟩
  · intro j l hj
    rw [hmax]
    by_cases hji : j = i
    · rw [hji]
      exact hidle.2
    · exact h.apart j l (hothers j hji ▸ hj)
  · have hsum : c'.sum = c.sum + latency.toNat := by simp [LatencyCounters.sum, hmeasured]
    rw [htotal, hsum, UInt64.ofNat_add, UInt64.ofNat_toNat, h.total]
  · intro j l hj
    rw [hmeasured]
    unfold UnderWay at hj
    rw [hmax] at hj
    rcases hj with hj | hj
    · by_cases hji : j = i
      · rw [hji, hself, Option.some.injEq] at hj
        rw [hj]
        exact List.mem_append_right _ (List.mem_singleton_self l)
      · exact List.mem_append_left _ (h.known j l (.inl (hothers j hji ▸ hj)))
    · exact List.mem_append_left _ (h.known j l (.inr hj))
  · rw [hmax, hmeasured]
    exact h.value.imp_right (List.mem_append_left _)
  · intro l hl
    rw [hmeasured, List.mem_append, List.mem_singleton] at hl
    rcases hl with hl | rfl
    · rw [hmax]
      refine (h.covered l hl).imp_right fun ⟨j, hj⟩ => ⟨j, ?_⟩
      unfold UnderWay
      rw [hmax]
      refine hj.imp_left fun hj => ?_
      have hji : j ≠ i := by
        rintro rfl
        rw [hidle.1] at hj
        cases hj
      rwa [hothers j hji]
    · exact .inr ⟨i, .inl hself⟩

/-- A step of the compare-and-swap loop of thread `i` with `latency`. -/
theorem Kept.raise (h : Kept c) {c' : LatencyCounters} {i : ℕ} {latency : UInt64}
    (hway : ∀ l, c.UnderWay i l ↔ l = latency) (htotal : c'.totalLatencyUs = c.totalLatencyUs)
    (hlinear : AtomicMax.Linear 0 c'.maxLatencyUs)
    (hraises : AtomicMax.Raises i latency c.maxLatencyUs c'.maxLatencyUs)
    (hself : c'.added i = none) (hothers : ∀ j, j ≠ i → c'.added j = c.added j)
    (hmeasured : c'.measured = c.measured) : Kept c' := by
  have hmem := h.known i latency ((hway latency).2 rfl)
  -- a thread other than `i` is under way as before, and `i` with `latency` alone
  have hunder : ∀ j l, j ≠ i → (c'.UnderWay j l ↔ c.UnderWay j l) := by
    intro j l hj
    unfold UnderWay
    rw [hothers j hj, hraises.others j hj]
  have hown : ∀ l, c'.UnderWay i l → l = latency := by
    rintro l (hl | ⟨prev, hl⟩)
    · rw [hself] at hl
      cases hl
    · rcases hraises.call with ⟨prev', hcall⟩ | ⟨hcall, -⟩
      · rw [hcall] at hl
        cases hl
        rfl
      · rw [hcall] at hl
        cases hl
  refine ⟨hlinear, ?_, ?_, ?_, ?_, ?_⟩
  · intro j l hj
    by_cases hji : j = i
    · rw [hji, hself] at hj
      cases hj
    · rw [hothers j hji] at hj
      rw [hraises.others j hji]
      exact h.apart j l hj
  · rw [htotal, h.total, LatencyCounters.sum, LatencyCounters.sum, hmeasured]
  · intro j l hj
    rw [hmeasured]
    by_cases hji : j = i
    · rw [hji] at hj
      rwa [hown l hj]
    · exact h.known j l ((hunder j l hji).1 hj)
  · rw [hmeasured]
    rcases hraises.value with hv | hv
    · rw [hv]
      exact h.value
    · rw [hv]
      exact .inr hmem
  · intro l hl
    rw [hmeasured] at hl
    rcases h.covered l hl with hle | ⟨j, hj⟩
    · exact .inl (hle.trans hraises.value_le)
    · by_cases hji : j = i
      · rw [hji, hway] at hj
        rw [hj]
        rcases hraises.call with ⟨prev, hcall⟩ | ⟨-, hle⟩
        · exact .inr ⟨i, .inr ⟨prev, hcall⟩⟩
        · exact .inl hle
      · exact .inr ⟨j, (hunder j l hji).2 hj⟩

theorem Kept.step (h : Kept c) (a : LatencyAction) : Kept (c.step a) := by
  cases a with
  | add i latency =>
    by_cases hidle : c.Idle i
    · refine h.add latency hidle ?_ ?_ ?_ ?_ <;>
        simp only [LatencyCounters.step, hidle, ite_true]
    · simpa only [LatencyCounters.step, hidle, ite_false] using h
  | load i seen =>
    cases hi : c.added i with
    | none => simpa only [LatencyCounters.step, hi] using h
    | some latency =>
      have hcalls := h.apart i latency hi
      have hstep : c.step (.load i seen) =
          { c with
            maxLatencyUs := c.maxLatencyUs.step (.load i latency seen)
            added := Function.update c.added i none } := by
        simp only [LatencyCounters.step, hi]
      have hway : ∀ l, c.UnderWay i l ↔ l = latency := by
        intro l
        simp [UnderWay, hi, hcalls, eq_comm]
      rw [hstep]
      exact h.raise hway rfl (h.linear.step (.load i latency seen))
        (h.linear.load_raises hcalls latency seen)
        (Function.update_self _ _ _) (fun j hj => Function.update_of_ne hj _ _) rfl
  | exchange i spurious seen =>
    cases hi : c.maxLatencyUs.calls i with
    | none =>
      have hsame : c.step (.exchange i spurious seen) = c := by
        simp only [LatencyCounters.step, AtomicMax.step, hi]
      rwa [hsame]
    | some call =>
      obtain ⟨latency, prev⟩ := call
      have hadded : c.added i = none := by
        cases ha : c.added i with
        | none => rfl
        | some l => simpa [hi] using h.apart i l ha
      have hway : ∀ l, c.UnderWay i l ↔ l = latency := by
        intro l
        simp [UnderWay, hi, hadded, eq_comm]
      exact h.raise hway rfl (h.linear.step (.exchange i spurious seen))
        (h.linear.exchange_raises hi spurious seen) hadded (fun _ _ => rfl) rfl

/-- The counters of an order manager that settled the latencies one after another. -/
theorem settle_foldl (om : OrderManager) (pending : PendingOrder) (answer : String)
    (latencies : List ℕ) :
    let om' := latencies.foldl (fun om latency => om.settle pending answer latency) om
    om'.totalLatencyUs = om.totalLatencyUs + latencies.sum ∧
      om'.maxLatencyUs = latencies.foldl max om.maxLatencyUs := by
  have hsettle : ∀ (om : OrderManager) latency,
      (om.settle pending answer latency).totalLatencyUs = om.totalLatencyUs + latency ∧
        (om.settle pending answer latency).maxLatencyUs = max om.maxLatencyUs latency := by
    intro om latency
    unfold OrderManager.settle
    dsimp only
    split <;> exact ⟨rfl, rfl⟩
  induction latencies generalizing om with
  | nil => exact ⟨rfl, rfl⟩
  | cons latency latencies ih =>
    obtain ⟨htotal, hmax⟩ := ih (om.settle pending answer latency)
    obtain ⟨ht, hm⟩ := hsettle om latency
    refine ⟨?_, ?_⟩
    · rw [List.foldl_cons, htotal, ht, List.sum_cons, Nat.add_assoc]
    · rw [List.foldl_cons, hmax, hm, List.foldl_cons]

theorem foldl_max_le_iff {xs : List ℕ} {a m : ℕ} :
    xs.foldl max a ≤ m ↔ a ≤ m ∧ ∀ x ∈ xs, x ≤ m := by
  induction xs generalizing a with
  | nil => simp
  | cons x xs ih => simp [ih, and_assoc]

/-- A member that no other exceeds is the maximum. -/
theorem foldl_max_eq {xs : List ℕ} {m : ℕ} (hle : ∀ x ∈ xs, x ≤ m) (hmem : m = 0 ∨ m ∈ xs) :
    xs.foldl max 0 = m := by
  apply le_antisymm
  · exact foldl_max_le_iff.2 ⟨Nat.zero_le m, hle⟩
  · rcases hmem with rfl | hmem
    · exact Nat.zero_le _
    · exact (foldl_max_le_iff.1 (le_refl _)).2 m hmem

theorem run_kept (xs : List LatencyAction) : Kept (run step {} xs) :=
  run_invariant (fun _ a h => h.step a) kept_start xs

/-- The maximum is within the sum of what was measured. -/
theorem Kept.value_le_sum (h : Kept c) : c.maxLatencyUs.value.toNat ≤ c.sum := by
  rcases h.value with hv | hv
  · rw [hv]
    exact Nat.zero_le _
  · exact List.single_le_sum (fun _ _ => Nat.zero_le _) _ (List.mem_map_of_mem hv)

/-- A sum that 64 bits hold is the total. -/
theorem Kept.toNat_total (h : Kept c) (hfits : c.sum < 2 ^ 64) : c.totalLatencyUs.toNat = c.sum := by
  rw [h.total, UInt64.toNat_ofNat']
  exact Nat.mod_eq_of_lt hfits

/-- With no thread under way no latency is above the maximum. -/
theorem Kept.le_value (h : Kept c) (hidle : ∀ i, c.Idle i) {latency : UInt64}
    (hl : latency ∈ c.measured) : latency ≤ c.maxLatencyUs.value := by
  rcases h.covered latency hl with hle | ⟨i, hi | ⟨prev, hi⟩⟩
  · exact hle
  · rw [(hidle i).1] at hi
    cases hi
  · rw [(hidle i).2] at hi
    cases hi

/-- **The latency counters lose nothing.** Whatever the interleaving of any number of threads,
however old the values their loads see and however often an exchange fails for no reason: when no
thread is under way, maximum and total are those of an order manager that settled the measured
latencies one after another, the total as far as 64 bits hold it. While the latencies measured add up
to less than that, the maximum never exceeds the total. -/
theorem settled_of_quiet (limits : Limits) (breaker : CircuitBreaker) (pending : PendingOrder)
    (answer : String) (xs : List LatencyAction) :
    let c := run step {} xs
    (c.sum < 2 ^ 64 → c.maxLatencyUs.value ≤ c.totalLatencyUs) ∧
      ((∀ i, c.Idle i) →
        let om := (c.measured.map UInt64.toNat).foldl
          (fun om latency => om.settle pending answer latency)
          ({ risk := { limits }, breaker } : OrderManager)
        c.totalLatencyUs = UInt64.ofNat om.totalLatencyUs ∧
          c.maxLatencyUs.value.toNat = om.maxLatencyUs) := by
  intro c
  have h : Kept c := run_kept xs
  constructor
  · intro hfits
    rw [UInt64.le_iff_toNat_le, h.toNat_total hfits]
    exact h.value_le_sum
  · intro hidle om
    obtain ⟨htotal, hmax⟩ := settle_foldl ({ risk := { limits }, breaker } : OrderManager) pending
      answer (c.measured.map UInt64.toNat)
    refine ⟨?_, ?_⟩
    · rw [htotal, h.total, Nat.zero_add]
      rfl
    · rw [hmax]
      refine (foldl_max_eq ?_ ?_).symm
      · intro n hn
        obtain ⟨latency, hl, rfl⟩ := List.mem_map.1 hn
        exact UInt64.le_iff_toNat_le.1 (h.le_value hidle hl)
      · exact h.value.imp (congrArg UInt64.toNat) List.mem_map_of_mem

/-- Two threads measure 5 and 9. The second loads before the first has stored, so that its exchange
fails once and its next load sees the old value again. -/
def overtaken : List LatencyAction :=
  [.add 0 5, .add 1 9, .load 0 0, .load 1 0, .exchange 0 false 0, .exchange 1 false 1,
    .exchange 1 true 0, .exchange 1 false 0]

theorem overtaken_settled :
    let c := run step {} overtaken
    (c.totalLatencyUs, c.maxLatencyUs.value) = (14, 9) ∧ c.maxLatencyUs.value ≤ c.totalLatencyUs ∧
      ((c.measured.map UInt64.toNat).foldl (fun om latency => om.settle ⟨{}, 0, ""⟩ "" latency)
        ({ risk := { limits := {} }, breaker := .new 100000 0 } : OrderManager)).maxLatencyUs = 9 := by
  intro c
  have hidle : ∀ i, c.Idle i := by
    rintro (_ | _ | i)
    · decide +kernel
    · decide +kernel
    · exact ⟨rfl, rfl⟩
  obtain ⟨hle, hsettled⟩ := settled_of_quiet {} (.new 100000 0) ⟨{}, 0, ""⟩ "" overtaken
  have hmax := (hsettled hidle).2
  exact ⟨by decide +kernel, hle (by decide +kernel), hmax.symm⟩

/-- A clock set back by 5 us: the total wraps around and falls below the maximum. -/
example :
    let c := run step {} [.add 0 (0 - 5), .load 0 0, .exchange 0 false 0, .add 0 10, .load 0 0]
    (c.totalLatencyUs, c.maxLatencyUs.value) = (5, 0 - 5) := by
  decide +kernel

end LatencyCounters

end TradingTerminal
