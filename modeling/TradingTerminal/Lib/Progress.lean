import TradingTerminal.Lib.Run

/-!
# What a party brings about by its own steps

`Inevitable step A Q s`: from `s`, every run whose inputs are all of kind `A` comes to a state with
`Q`, whichever inputs these are. With `A` the steps of one thread it says that the thread gets there
without waiting for another one. `inevitable_of_measure` is the rule to show it, a measure that
falls with every input; `not_inevitable_of_invariant` is the rule to refute it.
-/

namespace TradingTerminal.Lib

variable {σ ι : Type*} (step : σ → ι → σ)

/-- Every run on inputs of kind `A` comes to a state with `Q`. -/
inductive Inevitable (A : ι → Prop) (Q : σ → Prop) : σ → Prop
  | here {s : σ} (now : Q s) : Inevitable A Q s
  | later {s : σ} (next : ∀ x, A x → Inevitable A Q (step s x)) : Inevitable A Q s

variable {step} {A : ι → Prop} {Q R : σ → Prop} {s : σ}

theorem Inevitable.trans (h : Inevitable step A Q s) (hQ : ∀ s, Q s → Inevitable step A R s) :
    Inevitable step A R s := by
  induction h with
  | here now => exact hQ _ now
  | later _ ih => exact .later ih

/-- **Measure rule.** A measure that falls with every input until `Q` holds. -/
theorem inevitable_of_measure {I : σ → Prop} (μ : σ → ℕ)
    (fall : ∀ s x, I s → ¬ Q s → A x → Q (step s x) ∨ I (step s x) ∧ μ (step s x) < μ s)
    (hI : I s) : Inevitable step A Q s := by
  induction hn : μ s using Nat.strong_induction_on generalizing s with
  | _ n ih =>
    by_cases hQ : Q s
    · exact .here hQ
    · refine .later fun x hx => ?_
      rcases fall s x hI hQ hx with hQ' | ⟨hI', hlt⟩
      · exact .here hQ'
      · exact ih _ (hn ▸ hlt) hI' rfl

/-- What inputs of kind `A` keep, and what excludes `Q`, keeps `Q` away. -/
theorem not_inevitable_of_invariant {I : σ → Prop} (hA : ∃ x, A x)
    (keep : ∀ s x, I s → A x → I (step s x)) (apart : ∀ s, I s → ¬ Q s) (hI : I s) :
    ¬ Inevitable step A Q s := by
  intro h
  induction h with
  | here now => exact apart _ hI now
  | later _ ih =>
    obtain ⟨x, hx⟩ := hA
    exact ih x hx (keep _ x hI hx)

end TradingTerminal.Lib
