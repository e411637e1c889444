import Mathlib.Data.List.Basic
import Mathlib.Logic.Function.Basic
import Mathlib.Tactic.TypeStar

/-!
# Machines that keep their keys apart

A machine answers inputs, each of which belongs to a key. It is `Keyed` by `view` when an input is
answered from the view of its own key alone and changes that view alone. Then what the machine
answers to the inputs of one key does not depend on the inputs of the others
(`Keyed.outputs_filter`), nor on how the inputs of different keys are interleaved
(`Keyed.filter_outputs_eq`).
-/

namespace TradingTerminal.Lib

variable {σ ι κ ν ω : Type*}

section Outputs

variable (step : σ → ι → σ) (out : σ → ι → ω)

/-- The answers of a run, each with the input it answers. -/
def outputs : σ → List ι → List (ι × ω)
  | _, [] => []
  | s, x :: xs => (x, out s x) :: outputs (step s x) xs

end Outputs

/-- The inputs of a key are answered from, and change, the view of that key alone. -/
structure Keyed (step : σ → ι → σ) (out : σ → ι → ω) (key : ι → κ) (view : σ → κ → ν) : Prop where
  out_congr : ∀ s s' x, view s (key x) = view s' (key x) → out s x = out s' x
  step_congr : ∀ s s' x, view s (key x) = view s' (key x) →
    view (step s x) (key x) = view (step s' x) (key x)
  step_other : ∀ s x k, k ≠ key x → view (step s x) k = view s k

namespace Keyed

variable {step : σ → ι → σ} {out : σ → ι → ω} {key : ι → κ} {view : σ → κ → ν} [DecidableEq κ]

/-- A machine is keyed if its answers and its updates are functions of the view of the key. -/
theorem of_update {f : ν → ι → ω} {g : ν → ι → ν} (hout : ∀ s x, out s x = f (view s (key x)) x)
    (hstep : ∀ s x, view (step s x) = Function.update (view s) (key x) (g (view s (key x)) x)) :
    Keyed step out key view := by
  refine ⟨fun s s' x h => ?_, fun s s' x h => ?_, fun s x k hk => ?_⟩
  · rw [hout, hout, h]
  · rw [hstep, hstep, Function.update_self, Function.update_self, h]
  · rw [hstep, Function.update_of_ne hk]

/-- Two machines that agree on the view of a key answer the inputs of that key alike, also when only
one of them sees the other inputs. -/
theorem outputs_filter_of_view (h : Keyed step out key view) (k : κ) (xs : List ι) {s s' : σ}
    (hview : view s k = view s' k) :
    (outputs step out s xs).filter (key ·.1 = k) = outputs step out s' (xs.filter (key · = k)) := by
  induction xs generalizing s s' with
  | nil => rfl
  | cons x xs ih =>
    rw [outputs]
    by_cases hx : key x = k
    · subst hx
      rw [List.filter_cons_of_pos (by simp), List.filter_cons_of_pos (by simp), outputs,
        h.out_congr s s' x hview, ih (h.step_congr s s' x hview)]
    · rw [List.filter_cons_of_neg (by simpa using hx), List.filter_cons_of_neg (by simpa using hx)]
      exact ih ((h.step_other s x k (Ne.symm hx)).trans hview)

/-- The answers to the inputs of a key are those of the machine that is fed these inputs only. -/
theorem outputs_filter (h : Keyed step out key view) (k : κ) (s : σ) (xs : List ι) :
    (outputs step out s xs).filter (key ·.1 = k) = outputs step out s (xs.filter (key · = k)) :=
  h.outputs_filter_of_view k xs rfl

/-- Runs with the same inputs of a key answer these alike. -/
theorem filter_outputs_eq (h : Keyed step out key view) {k : κ} (s : σ) {xs ys : List ι}
    (hxs : xs.filter (key · = k) = ys.filter (key · = k)) :
    (outputs step out s xs).filter (key ·.1 = k) = (outputs step out s ys).filter (key ·.1 = k) := by
  rw [h.outputs_filter, h.outputs_filter, hxs]

end Keyed

end TradingTerminal.Lib
