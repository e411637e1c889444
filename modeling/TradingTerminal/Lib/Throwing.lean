import Mathlib.Data.List.Basic

/-!
# Calls that may throw

A call that may throw is a computation in `Except`; `Returns` says that it comes back with a value.
A sequence of calls returns if each call does on what the ones before it gave.
-/

namespace TradingTerminal.Lib

variable {ε ε' α β : Type*}

/-- The call comes back with a value. -/
def Returns (x : Except ε α) : Prop := ∃ a, x = .ok a

@[simp] theorem returns_ok (a : α) : Returns (.ok a : Except ε α) := ⟨a, rfl⟩

@[simp] theorem returns_pure {ε α : Type} (a : α) : Returns (pure a : Except ε α) := ⟨a, rfl⟩

@[simp] theorem not_returns_error (e : ε) : ¬ Returns (.error e : Except ε α) := by
  rintro ⟨a, h⟩
  cases h

theorem returns_mapError {f : ε → ε'} {x : Except ε α} : Returns (x.mapError f) ↔ Returns x := by
  cases x with
  | error e => simp [Except.mapError]
  | ok a => simp [Except.mapError]

theorem returns_bind {ε α β : Type} {x : Except ε α} {f : α → Except ε β} :
    Returns (x >>= f) ↔ ∃ a, x = .ok a ∧ Returns (f a) := by
  cases x with
  | error e => exact iff_of_false (not_returns_error e) (by simp)
  | ok a => exact ⟨fun h => ⟨a, rfl, h⟩, by rintro ⟨a', ha, h⟩; cases ha; exact h⟩

/-- Calls that do not depend on each other. -/
theorem returns_bind_of_forall {ε α β : Type} {x : Except ε α} {f : α → Except ε β} {p : Prop}
    (h : ∀ a, Returns (f a) ↔ p) : Returns (x >>= f) ↔ Returns x ∧ p := by
  rw [returns_bind, Returns, ← exists_and_right]
  exact exists_congr fun a => and_congr_right fun _ => h a

theorem returns_mapM {ε α β : Type} {f : α → Except ε β} {xs : List α} :
    Returns (xs.mapM f) ↔ ∀ x ∈ xs, Returns (f x) := by
  induction xs with
  | nil => simp
  | cons x xs ih =>
    rw [List.mapM_cons, List.forall_mem_cons, ← ih]
    refine returns_bind_of_forall fun b => ?_
    rw [returns_bind_of_forall (p := True) fun bs => by simp, and_true]

end TradingTerminal.Lib
