import Mathlib.Data.List.Nodup
import Mathlib.Logic.Function.Basic

/-!
# Numbers drawn from a counter

Several parties draw numbers from one counter. Between drawing a number and spending it a party may
be delayed, so numbers are spent in any order; still no number is spent twice. `Tickets` is the
invariant of the counter, the numbers held and the numbers spent.
-/

namespace TradingTerminal.Lib

variable {ι : Type*} [DecidableEq ι]

/-- Every number spent or held was drawn from the counter, and each only once. -/
structure Tickets (counter : Nat) (held : ι → Option Nat) (spent : List Nat) : Prop where
  nodup : spent.Nodup
  spent_le : ∀ n ∈ spent, n ≤ counter
  held_le : ∀ i n, held i = some n → n ≤ counter
  held_unspent : ∀ i n, held i = some n → n ∉ spent
  held_inj : ∀ i j n, held i = some n → held j = some n → i = j

namespace Tickets

variable {counter : Nat} {held : ι → Option Nat} {spent : List Nat}

omit [DecidableEq ι] in
theorem start (counter : Nat) : Tickets counter (fun _ : ι => none) [] := by
  constructor <;> simp

/-- Numbers can be lost without being spent. -/
theorem release (h : Tickets counter held spent) (i : ι) :
    Tickets counter (Function.update held i none) spent := by
  have sub : ∀ j n, Function.update held i none j = some n → held j = some n := by
    intro j n hj
    by_cases hji : j = i
    · simp [hji] at hj
    · rwa [Function.update_of_ne hji] at hj
  exact ⟨h.nodup, h.spent_le, fun j n hj => h.held_le j n (sub j n hj),
    fun j n hj => h.held_unspent j n (sub j n hj),
    fun j k n hj hk => h.held_inj j k n (sub j n hj) (sub k n hk)⟩

/-- The number after the counter is new to everyone. -/
theorem draw (h : Tickets counter held spent) (i : ι) :
    Tickets (counter + 1) (Function.update held i (some (counter + 1))) spent := by
  have cases : ∀ j n, Function.update held i (some (counter + 1)) j = some n →
      j = i ∧ n = counter + 1 ∨ held j = some n ∧ n ≤ counter := by
    intro j n hj
    by_cases hji : j = i
    · subst hji
      rw [Function.update_self, Option.some.injEq] at hj
      exact .inl ⟨rfl, hj.symm⟩
    · rw [Function.update_of_ne hji] at hj
      exact .inr ⟨hj, h.held_le j n hj⟩
  refine ⟨h.nodup, fun n hn => Nat.le_succ_of_le (h.spent_le n hn), ?_, ?_, ?_⟩
  · intro j n hj
    rcases cases j n hj with ⟨-, rfl⟩ | ⟨-, hle⟩
    · exact Nat.le_refl _
    · exact Nat.le_succ_of_le hle
  · intro j n hj hn
    have hle := h.spent_le n hn
    rcases cases j n hj with ⟨-, rfl⟩ | ⟨hold, -⟩
    · omega
    · exact h.held_unspent j n hold hn
  · intro j k n hj hk
    rcases cases j n hj with ⟨rfl, rfl⟩ | ⟨hold, hle⟩ <;>
      rcases cases k _ hk with ⟨hki, hn⟩ | ⟨hold', hle'⟩
    · exact hki.symm
    · omega
    · omega
    · exact h.held_inj j k n hold hold'

/-- A number held is spent for the first time. -/
theorem spend (h : Tickets counter held spent) {i : ι} {n : Nat} (hi : held i = some n) :
    Tickets counter (Function.update held i none) (spent ++ [n]) := by
  have hrel := h.release i
  refine ⟨?_, ?_, hrel.held_le, ?_, hrel.held_inj⟩
  · rw [← List.concat_eq_append]
    exact h.nodup.concat (h.held_unspent i n hi)
  · intro m hm
    rcases List.mem_append.1 hm with hm | hm
    · exact h.spent_le m hm
    · rw [List.mem_singleton.1 hm]
      exact h.held_le i n hi
  · intro j m hj hm
    rcases List.mem_append.1 hm with hm | hm
    · exact hrel.held_unspent j m hj hm
    · rw [List.mem_singleton.1 hm] at hj
      by_cases hji : j = i
      · simp [hji] at hj
      · rw [Function.update_of_ne hji] at hj
        exact hji (h.held_inj j i n hj hi)

end Tickets

end TradingTerminal.Lib
