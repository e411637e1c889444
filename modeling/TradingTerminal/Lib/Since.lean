import TradingTerminal.Lib.Run

/-!
# Histories

A history is the list of what has happened, the latest at its end. `Since A B xs` says that
something met `A` when it happened and nothing behind it met `B`; `Once A xs` that something met `A`.
What is asked of an element may depend on the history before it. Both are followed along a run by
what they become when one more element happens (`since_concat`, `once_concat`), and compared with one
another in the same way (`Since.mono`).

`run_of_history` is the rule for a program that fails at the first input that clashes with the
history before it: whether it has failed is a matter of the inputs alone.
-/

namespace TradingTerminal.Lib

variable {α σ : Type*} {A B C : List α → α → Prop} {xs : List α} {x : α}

def Since (A B : List α → α → Prop) (xs : List α) : Prop :=
  ∃ pre x post, xs = pre ++ x :: post ∧ A pre x ∧
    ∀ mid y rest, post = mid ++ y :: rest → ¬ B (pre ++ x :: mid) y

def Once (A : List α → α → Prop) (xs : List α) : Prop := Since A (fun _ _ => False) xs

@[simp] theorem not_since_nil : ¬ Since A B [] := by
  rintro ⟨pre, x, post, h, -⟩
  cases pre <;> cases h

theorem since_concat : Since A B (xs ++ [x]) ↔ A xs x ∨ Since A B xs ∧ ¬ B xs x := by
  constructor
  · rintro ⟨pre, y, post, heq, hA, hpost⟩
    rcases List.eq_nil_or_concat post with rfl | ⟨post, z, rfl⟩
    · obtain ⟨rfl, hlast⟩ := List.append_inj' heq rfl
      obtain rfl := List.singleton_inj.1 hlast
      exact Or.inl hA
    · rw [List.concat_eq_append] at heq hpost
      rw [← List.cons_append, ← List.append_assoc] at heq
      obtain ⟨rfl, hlast⟩ := List.append_inj' heq rfl
      obtain rfl := List.singleton_inj.1 hlast
      refine Or.inr ⟨⟨pre, y, post, rfl, hA, fun mid w rest hmid => ?_⟩, hpost post x [] rfl⟩
      refine hpost mid w (rest ++ [x]) ?_
      rw [hmid, List.append_assoc, List.cons_append]
  · rintro (hA | ⟨⟨pre, y, post, rfl, hA, hpost⟩, hx⟩)
    · refine ⟨xs, x, [], rfl, hA, fun mid w rest hmid => ?_⟩
      cases mid <;> cases hmid
    · refine ⟨pre, y, post ++ [x], by simp, hA, fun mid w rest hmid => ?_⟩
      rcases List.eq_nil_or_concat rest with rfl | ⟨rest, z, rfl⟩
      · obtain ⟨rfl, hlast⟩ := List.append_inj' hmid rfl
        obtain rfl := List.singleton_inj.1 hlast
        exact hx
      · rw [List.concat_eq_append, ← List.cons_append, ← List.append_assoc] at hmid
        exact hpost mid w rest (List.append_inj' hmid rfl).1

theorem since_concat_of_not (hA : ¬ A xs x) (hB : ¬ B xs x) :
    Since A B (xs ++ [x]) ↔ Since A B xs := by
  rw [since_concat, or_iff_right hA, and_iff_left hB]

theorem not_since_concat (hA : ¬ A xs x) (hB : B xs x) : ¬ Since A B (xs ++ [x]) := by
  rw [since_concat, not_or]
  exact ⟨hA, fun h => h.2 hB⟩

/-- What sets the second is set by the first, and while the second holds, what would end the first
ends the second. -/
theorem Since.mono {A' B' : List α → α → Prop} (hA : ∀ xs x, A xs x → A' xs x)
    (hB : ∀ xs x, Since A B xs → B' xs x → B xs x) (h : Since A B xs) : Since A' B' xs := by
  induction xs using List.reverseRecOn with
  | nil => exact absurd h not_since_nil
  | append_singleton xs x ih =>
    rw [since_concat] at h ⊢
    rcases h with hset | ⟨hkept, hend⟩
    · exact Or.inl (hA xs x hset)
    · exact Or.inr ⟨ih hkept, fun hx => hend (hB xs x hkept hx)⟩

@[simp] theorem not_once_nil : ¬ Once A [] := not_since_nil

theorem once_concat : Once A (xs ++ [x]) ↔ A xs x ∨ Once A xs := by
  unfold Once
  rw [since_concat, and_iff_left not_false]

/-- **History rule.** If `I` relates the state to the history while no input clashes with the
history before it, a clash fails, and no step leads out of a failure, then a run keeps `I` until
something clashes and has failed from then on. -/
theorem run_of_history {step : σ → α → σ} {I : List α → σ → Prop} {F : σ → Prop}
    (keep : ∀ xs s x, I xs s → ¬ C xs x → I (xs ++ [x]) (step s x))
    (fail : ∀ xs s x, I xs s → C xs x → F (step s x)) (stay : ∀ s x, F s → F (step s x)) {s : σ}
    (hI : I [] s) (xs : List α) :
    (¬ Once C xs → I xs (run step s xs)) ∧ (Once C xs → F (run step s xs)) := by
  induction xs using List.reverseRecOn with
  | nil => exact ⟨fun _ => hI, fun h => absurd h not_once_nil⟩
  | append_singleton xs x ih =>
    rw [once_concat, run_concat]
    constructor
    · intro h
      exact keep xs _ x (ih.1 fun hearlier => h (Or.inr hearlier)) fun hC => h (Or.inl hC)
    · intro h
      by_cases hearlier : Once C xs
      · exact stay _ x (ih.2 hearlier)
      · exact fail xs _ x (ih.1 hearlier) (h.resolve_right hearlier)

end TradingTerminal.Lib
