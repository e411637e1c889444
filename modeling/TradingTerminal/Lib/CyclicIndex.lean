import Mathlib.Data.Nat.ModEq
import Mathlib.Tactic.Common

/-!
# Cyclic indices

Positions of an unbounded sequence, kept modulo `c`. Positions less than `c` apart have different
indices, and the distance between two of them can be read off their indices.
-/

namespace TradingTerminal.Lib

/-- Less than `c` apart, positions are equal if their indices are. -/
theorem mod_eq_mod_iff {a b c : Nat} (hab : a ≤ b) (hb : b < a + c) : a % c = b % c ↔ a = b := by
  constructor
  · intro h
    have hdvd : c ∣ b - a := (Nat.modEq_iff_dvd' hab).1 h
    have hzero := Nat.eq_zero_of_dvd_of_lt hdvd (by omega)
    omega
  · rintro rfl
    rfl

theorem mod_ne_mod {a b c : Nat} (hab : a < b) (hb : b < a + c) : a % c ≠ b % c := fun h =>
  absurd ((mod_eq_mod_iff hab.le hb).1 h) hab.ne

/-- The next index belongs to the next position. -/
theorem succ_mod (a c : Nat) : (a % c + 1) % c = (a + 1) % c := Nat.mod_add_mod a c 1

/-- The index a distance `d` ahead, past the end at most once. -/
theorem add_mod_of_lt {a d c : Nat} (hd : d < c) :
    (a + d) % c = if a % c + d < c then a % c + d else a % c + d - c := by
  rw [← Nat.mod_add_mod]
  have hlt : a % c < c := Nat.mod_lt a (by omega)
  split
  · next h => exact Nat.mod_eq_of_lt h
  · next h => rw [Nat.mod_eq_sub_mod (by omega), Nat.mod_eq_of_lt (by omega)]

/-- **Distance.** The distance between two positions less than `c` apart, from their indices. -/
theorem sub_mod_of_lt {a b c : Nat} (hab : a ≤ b) (hb : b < a + c) :
    (b % c + c - a % c) % c = b - a := by
  obtain ⟨d, rfl⟩ := Nat.exists_eq_add_of_le hab
  have hd : d < c := by omega
  have hlt : a % c < c := Nat.mod_lt a (by omega)
  rw [Nat.add_sub_cancel_left, add_mod_of_lt hd]
  split
  · next h =>
    rw [Nat.mod_eq_sub_mod (by omega), Nat.mod_eq_of_lt (by omega)]
    omega
  · next h =>
    rw [Nat.mod_eq_of_lt (by omega)]
    omega

end TradingTerminal.Lib
