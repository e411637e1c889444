import Mathlib.Algebra.CharZero.Defs
import Mathlib.Algebra.Field.Defs

/-!
# Checked division

A computation with divisions, written once more so that a zero divisor stops it, is a computation in
`Option`. `DefinedWhere P checked value` says that it gives the value of the unchecked one where `P`
holds and stops elsewhere; so `P` is the condition under which nothing is divided by zero.
-/

namespace TradingTerminal.Lib

section CheckedDiv

variable {K : Type*} [DivisionRing K] [DecidableEq K]

/-- A division that stops on a zero divisor. -/
def checkedDiv (a b : K) : Option K := if b ≠ 0 then some (a / b) else none

theorem checkedDiv_of_ne {b : K} (h : b ≠ 0) (a : K) : checkedDiv a b = some (a / b) := if_pos h

@[simp] theorem checkedDiv_zero (a : K) : checkedDiv a 0 = none := if_neg (not_not.2 rfl)

/-- A count of something that is there divides. -/
theorem checkedDiv_natCast [CharZero K] {n : Nat} (h : 0 < n) (a : K) :
    checkedDiv a (n : K) = some (a / n) :=
  checkedDiv_of_ne (Nat.cast_ne_zero.2 (by omega)) a

end CheckedDiv

/-- A checked computation that gives the value of the unchecked one where `P` holds, and stops
elsewhere. -/
structure DefinedWhere {α : Type*} (P : Prop) (checked : Option α) (value : α) : Prop where
  value : P → checked = some value
  stops : ¬ P → checked = none

theorem DefinedWhere.ne_none_iff {α : Type*} {P : Prop} {checked : Option α} {value : α}
    (h : DefinedWhere P checked value) : checked ≠ none ↔ P := by
  constructor
  · intro hvalue
    exact not_not.1 fun hP => hvalue (h.stops hP)
  · intro hP
    rw [h.value hP]
    exact Option.some_ne_none value

end TradingTerminal.Lib
