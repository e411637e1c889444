import Mathlib.Data.List.Basic
import Mathlib.Data.List.Infix

/-!
# Runs of a deterministic step function

A program that reacts to inputs is a step function `step : σ → ι → σ`; a run is a list of inputs.
`Throughout step P s xs` says that `P` holds in every state the run passes through, the first and
the last included; `Guarded step G s xs` says that every input of the run meets `G` in the state it
finds. `throughout_of_guarded` is the invariant rule for runs whose inputs are all guarded, and
`throughout_iff_guarded` says when a guard is exactly what a property of runs needs: every unguarded
input breaks the property at once.
-/

namespace TradingTerminal.Lib

variable {σ ι : Type*} (step : σ → ι → σ)

/-- The state a run ends in. -/
def run (s : σ) (xs : List ι) : σ := xs.foldl step s

@[simp] theorem run_nil (s : σ) : run step s [] = s := rfl

@[simp] theorem run_cons (s : σ) (x : ι) (xs : List ι) :
    run step s (x :: xs) = run step (step s x) xs := rfl

theorem run_append (s : σ) (xs ys : List ι) :
    run step s (xs ++ ys) = run step (run step s xs) ys :=
  List.foldl_append

theorem run_concat (s : σ) (xs : List ι) (x : ι) :
    run step s (xs ++ [x]) = step (run step s xs) x := by
  rw [run_append]; rfl

/-- `P` holds in every state of the run. -/
def Throughout (P : σ → Prop) (s : σ) (xs : List ι) : Prop :=
  ∀ ys, ys <+: xs → P (run step s ys)

/-- Every input of the run meets `G` in the state it is given to. -/
def Guarded (G : σ → ι → Prop) (s : σ) (xs : List ι) : Prop :=
  ∀ ys x, ys ++ [x] <+: xs → G (run step s ys) x

variable {step}

@[simp] theorem throughout_nil {P : σ → Prop} {s : σ} : Throughout step P s [] ↔ P s := by
  simp [Throughout]

@[simp] theorem throughout_cons {P : σ → Prop} {s : σ} {x : ι} {xs : List ι} :
    Throughout step P s (x :: xs) ↔ P s ∧ Throughout step P (step s x) xs := by
  constructor
  · intro h
    exact ⟨h [] (List.nil_prefix), fun ys hys => h (x :: ys) (List.cons_prefix_cons.2 ⟨rfl, hys⟩)⟩
  · rintro ⟨h0, h⟩ ys hys
    cases ys with
    | nil => exact h0
    | cons y ys =>
      obtain ⟨rfl, hys'⟩ := List.cons_prefix_cons.1 hys
      exact h ys hys'

@[simp] theorem guarded_nil {G : σ → ι → Prop} {s : σ} : Guarded step G s [] := by
  intro ys x h
  simp at h

@[simp] theorem guarded_cons {G : σ → ι → Prop} {s : σ} {x : ι} {xs : List ι} :
    Guarded step G s (x :: xs) ↔ G s x ∧ Guarded step G (step s x) xs := by
  constructor
  · intro h
    exact ⟨h [] x (by simp), fun ys y hys => h (x :: ys) y (List.cons_prefix_cons.2 ⟨rfl, hys⟩)⟩
  · rintro ⟨h0, h⟩ ys y hys
    cases ys with
    | nil =>
      obtain ⟨rfl, -⟩ := List.cons_prefix_cons.1 hys
      exact h0
    | cons z ys =>
      obtain ⟨rfl, hys'⟩ := List.cons_prefix_cons.1 hys
      exact h ys y hys'

instance Guarded.decidable {G : σ → ι → Prop} [∀ s x, Decidable (G s x)] :
    ∀ (s : σ) (xs : List ι), Decidable (Guarded step G s xs)
  | _, [] => .isTrue guarded_nil
  | s, x :: xs =>
    have := Guarded.decidable (G := G) (step s x) xs
    decidable_of_iff _ guarded_cons.symm

theorem Throughout.here {P : σ → Prop} {s : σ} {xs : List ι} (h : Throughout step P s xs) : P s :=
  h [] List.nil_prefix

theorem Throughout.last {P : σ → Prop} {s : σ} {xs : List ι} (h : Throughout step P s xs) :
    P (run step s xs) :=
  h xs (List.prefix_refl xs)

/-- **Invariant rule.** What holds at the start and is kept by every guarded step holds throughout
a guarded run. The inputs may be restricted to those that meet `H`. -/
theorem throughout_of_guarded {I : σ → Prop} {G : σ → ι → Prop} {H : ι → Prop}
    (keep : ∀ s x, H x → I s → G s x → I (step s x)) :
    ∀ {xs : List ι} {s : σ}, (∀ x ∈ xs, H x) → I s → Guarded step G s xs → Throughout step I s xs
  | [], _, _, hI, _ => throughout_nil.2 hI
  | _ :: _, _, hH, hI, hG =>
    have hG := guarded_cons.1 hG
    have hH := List.forall_mem_cons.1 hH
    throughout_cons.2 ⟨hI, throughout_of_guarded keep hH.2 (keep _ _ hH.1 hI hG.1) hG.2⟩

/-- What holds at the start and is kept by every step holds throughout every run. -/
theorem throughout_of_step {I : σ → Prop} (keep : ∀ s x, I s → I (step s x)) {s : σ} (hI : I s)
    (xs : List ι) : Throughout step I s xs :=
  throughout_of_guarded (G := fun _ _ => True) (H := fun _ => True)
    (fun s x _ h _ => keep s x h) (fun _ _ => trivial) hI (fun _ _ _ => trivial)

theorem run_invariant {I : σ → Prop} (keep : ∀ s x, I s → I (step s x)) {s : σ} (hI : I s)
    (xs : List ι) : I (run step s xs) :=
  (throughout_of_step keep hI xs).last

theorem guarded_of_forall {H : ι → Prop} {s : σ} {xs : List ι} (h : ∀ x ∈ xs, H x) :
    Guarded step (fun _ x => H x) s xs := by
  intro ys x hys
  exact h x (hys.subset (by simp))

/-- A guard whose steps keep `I` gives every guard that it implies under `I`. -/
theorem guarded_imp {I : σ → Prop} {G G' : σ → ι → Prop}
    (keep : ∀ s x, I s → G s x → I (step s x)) (imp : ∀ s x, I s → G s x → G' s x) {s : σ}
    (hI : I s) {xs : List ι} (h : Guarded step G s xs) : Guarded step G' s xs := by
  have hall : Throughout step I s xs :=
    throughout_of_guarded (H := fun _ => True) (fun s x _ => keep s x) (fun _ _ => trivial) hI h
  intro ys x hys
  exact imp _ x (hall ys ((List.prefix_append ys [x]).trans hys)) (h ys x hys)

/-- Two guards that agree under an invariant of the one agree on runs. The inputs may be restricted
to those that meet `H`. -/
theorem guarded_congr_within {I : σ → Prop} {G G' : σ → ι → Prop} {H : ι → Prop}
    (keep : ∀ s x, H x → I s → G s x → I (step s x))
    (congr : ∀ s x, H x → I s → (G s x ↔ G' s x)) :
    ∀ {xs : List ι} {s : σ}, (∀ x ∈ xs, H x) → I s → (Guarded step G s xs ↔ Guarded step G' s xs)
  | [], _, _, _ => iff_of_true guarded_nil guarded_nil
  | x :: xs, s, hH, hI => by
    obtain ⟨hx, hxs⟩ := List.forall_mem_cons.1 hH
    rw [guarded_cons, guarded_cons, ← congr s x hx hI]
    exact and_congr_right fun hG => guarded_congr_within keep congr hxs (keep s x hx hI hG)

/-- Two guards that agree under an invariant of the one agree on runs. -/
theorem guarded_congr {I : σ → Prop} {G G' : σ → ι → Prop}
    (keep : ∀ s x, I s → G s x → I (step s x)) (congr : ∀ s x, I s → (G s x ↔ G' s x)) {s : σ}
    (hI : I s) {xs : List ι} : Guarded step G s xs ↔ Guarded step G' s xs :=
  guarded_congr_within (H := fun _ => True) (fun s x _ => keep s x) (fun s x _ => congr s x)
    (fun _ _ => trivial) hI

/-- **Exactness rule.** If `I` holds at the start, gives `P`, is kept by guarded steps, and every
unguarded step taken from `I` leaves `P`, then the guard is exactly what `P` needs. The runs may be
restricted to those whose inputs meet `A` where they are given. -/
theorem throughout_iff_guarded_within {I P : σ → Prop} {A G : σ → ι → Prop}
    (sound : ∀ s, I s → P s) (keep : ∀ s x, A s x → I s → G s x → I (step s x))
    (leave : ∀ s x, A s x → I s → ¬ G s x → ¬ P (step s x)) :
    ∀ {xs : List ι} {s : σ}, Guarded step A s xs → I s →
      (Throughout step P s xs ↔ Guarded step G s xs)
  | [], s, _, hI => by simp [sound s hI]
  | x :: xs, s, hA, hI => by
    rw [throughout_cons, guarded_cons]
    have hA := guarded_cons.1 hA
    by_cases hG : G s x
    · simp only [sound s hI, hG, true_and]
      exact throughout_iff_guarded_within sound keep leave hA.2 (keep s x hA.1 hI hG)
    · have hP : ¬ Throughout step P (step s x) xs := fun h => leave s x hA.1 hI hG h.here
      simp [hG, hP]

/-- The exactness rule with the inputs restricted to those that meet `H`. -/
theorem throughout_iff_guarded {I P : σ → Prop} {G : σ → ι → Prop} {H : ι → Prop}
    (sound : ∀ s, I s → P s) (keep : ∀ s x, H x → I s → G s x → I (step s x))
    (leave : ∀ s x, H x → I s → ¬ G s x → ¬ P (step s x)) {xs : List ι} {s : σ}
    (hH : ∀ x ∈ xs, H x) (hI : I s) : Throughout step P s xs ↔ Guarded step G s xs :=
  throughout_iff_guarded_within (A := fun _ x => H x) sound keep leave (guarded_of_forall hH) hI

/-- **Dichotomy rule.** If guarded steps keep `I`, unguarded steps lead from `I` to `B`, and no step
leads out of `B`, then a run ends in `I` if it is guarded and in `B` if it is not. -/
theorem run_of_guarded_or_not {I B : σ → Prop} {G : σ → ι → Prop}
    (keep : ∀ s x, I s → G s x → I (step s x)) (leave : ∀ s x, I s → ¬ G s x → B (step s x))
    (stay : ∀ s x, B s → B (step s x)) :
    ∀ (xs : List ι) {s : σ}, I s →
      (Guarded step G s xs → I (run step s xs)) ∧ (¬ Guarded step G s xs → B (run step s xs))
  | [], _, hI => ⟨fun _ => hI, fun h => absurd guarded_nil h⟩
  | x :: xs, s, hI => by
    rw [guarded_cons, run_cons]
    by_cases hG : G s x
    · simpa [hG] using run_of_guarded_or_not keep leave stay xs (keep s x hI hG)
    · have hB : B (run step (step s x) xs) := run_invariant stay (leave s x hI hG) xs
      simp [hG, hB]

end TradingTerminal.Lib
