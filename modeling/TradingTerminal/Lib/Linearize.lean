import TradingTerminal.Lib.Keyed
import TradingTerminal.Lib.Run

/-!
# Serving calls one at a time

A shared object lets its callers in at many points of their calls; a sequential one serves a call at
once. `Linearizes` says at which step a call takes effect: this step changes the settled state as
the sequential object would and gives its answer, and no other step changes the settled state. Then
the calls of every schedule are answered as the sequential object answers them, in the order in
which they took effect (`Linearizes.servedBy_eq`).
-/

namespace TradingTerminal.Lib

variable {γ σ τ ι ω : Type*}

section ServedBy

variable (serve : γ → τ → γ × Option (ι × ω))

/-- The calls that take effect in a schedule, each with its answer. -/
def servedBy : γ → List τ → List (ι × ω)
  | _, [] => []
  | c, t :: ts => (serve c t).2.toList ++ servedBy (serve c t).1 ts

/-- The shared state that a schedule ends in. -/
def scheduled (c : γ) (ts : List τ) : γ := run (fun c t => (serve c t).1) c ts

end ServedBy

/-- What the shared object settles to is a sequential object, and a call takes effect in one
step. -/
structure Linearizes (serve : γ → τ → γ × Option (ι × ω)) (step : σ → ι → σ) (out : σ → ι → ω)
    (settle : γ → σ) : Prop where
  silent : ∀ c t, (serve c t).2 = none → settle (serve c t).1 = settle c
  served : ∀ c t x a, (serve c t).2 = some (x, a) →
    a = out (settle c) x ∧ settle (serve c t).1 = step (settle c) x

namespace Linearizes

variable {serve : γ → τ → γ × Option (ι × ω)} {step : σ → ι → σ} {out : σ → ι → ω} {settle : γ → σ}

/-- **One at a time.** The calls of a schedule are answered as the sequential object answers them,
and what the shared object settles to is what they leave there. -/
theorem servedBy_eq (h : Linearizes serve step out settle) (c : γ) (ts : List τ) :
    servedBy serve c ts = outputs step out (settle c) ((servedBy serve c ts).map Prod.fst) ∧
      settle (scheduled serve c ts) = run step (settle c) ((servedBy serve c ts).map Prod.fst) := by
  induction ts generalizing c with
  | nil => exact ⟨rfl, rfl⟩
  | cons t ts ih =>
    obtain ⟨ihAnswers, ihSettle⟩ := ih (serve c t).1
    rw [servedBy, scheduled, run_cons]
    cases hserve : (serve c t).2 with
    | none =>
      have hsame := h.silent c t hserve
      rw [hsame] at ihAnswers ihSettle
      exact ⟨ihAnswers, ihSettle⟩
    | some x =>
      obtain ⟨x, a⟩ := x
      obtain ⟨rfl, hstep⟩ := h.served c t x a hserve
      rw [hstep] at ihAnswers ihSettle
      refine ⟨?_, ihSettle⟩
      rw [Option.toList_some, List.singleton_append, List.map_cons, outputs, ← ihAnswers]

end Linearizes

end TradingTerminal.Lib
