import Mathlib.Logic.Function.Basic
import Mathlib.Order.Lattice
import Mathlib.Order.MinMax

/-!
# A maximum kept by compare-and-swap

The loop `prev = load(); while (x > prev && !compare_exchange_weak(prev, x)) {}` of any number of
threads on one atomic variable. A relaxed load, and the one of a failed exchange, may see any value
the variable ever had; an exchange compares with the newest value and may fail for no reason. The
log `raised` holds the arguments of the calls that have returned, in the order they took effect.

`Linear` is the invariant: the variable is always the maximum of its initial value and the log, so
every call takes effect at one moment. `Raises` is what one step of a call does.
-/

namespace TradingTerminal.Lib

variable {α : Type*} [LinearOrder α]

/-- The variable with its former values, and for each thread the argument of its call and the value
it expects to find. -/
structure AtomicMax (α : Type*) where
  value : α
  older : List α := []
  calls : ℕ → Option (α × α) := fun _ => none
  raised : List α := []

/-- A thread calls, or tries its exchange; `seen` says how old the value is that its load sees. -/
inductive MaxAction (α : Type*) where
  | load (i : ℕ) (x : α) (seen : ℕ)
  | exchange (i : ℕ) (spurious : Bool) (seen : ℕ)

namespace AtomicMax

variable (s : AtomicMax α)

/-- The value a load sees. -/
def read (seen : ℕ) : α := (s.value :: s.older).getD seen s.value

/-- The test of the loop, with `prev` just loaded. -/
def test (i : ℕ) (x prev : α) : AtomicMax α :=
  if x > prev then { s with calls := Function.update s.calls i (some (x, prev)) }
  else { s with calls := Function.update s.calls i none, raised := s.raised ++ [x] }

def step : MaxAction α → AtomicMax α
  | .load i x seen =>
    match s.calls i with
    | none => s.test i x (s.read seen)
    | some _ => s
  | .exchange i spurious seen =>
    match s.calls i with
    | none => s
    | some (x, prev) =>
      if !spurious && prev = s.value then
        { value := x
          older := s.value :: s.older
          calls := Function.update s.calls i none
          raised := s.raised ++ [x] }
      else s.test i x (s.read seen)

/-- The variable is the maximum of `start` and the log. -/
structure Linear (start : α) (s : AtomicMax α) : Prop where
  value : s.value = s.raised.foldl max start
  older : ∀ y ∈ s.older, y ≤ s.value
  calls : ∀ i x prev, s.calls i = some (x, prev) → prev < x ∧ prev ≤ s.value

theorem linear_start (start : α) : Linear start ({ value := start } : AtomicMax α) := by
  constructor <;> simp

variable {s} {start : α}

theorem Linear.read_le (h : Linear start s) (seen : ℕ) : s.read seen ≤ s.value := by
  unfold read
  cases seen with
  | zero => exact le_refl _
  | succ n =>
    rw [List.getD_cons_succ, List.getD_eq_getElem?_getD]
    cases hn : s.older[n]? with
    | none => exact le_refl _
    | some y => exact h.older y (List.mem_of_getElem? hn)

/-- What is known of the calls after thread `i` has moved on to `call`. -/
theorem calls_update {calls : ℕ → Option (α × α)} {i : ℕ} {call : Option (α × α)} {v : α}
    (hcalls : ∀ j x prev, calls j = some (x, prev) → prev < x ∧ prev ≤ v)
    (hcall : ∀ x prev, call = some (x, prev) → prev < x ∧ prev ≤ v) :
    ∀ j x prev, Function.update calls i call j = some (x, prev) → prev < x ∧ prev ≤ v := by
  intro j x prev hj
  by_cases hji : j = i
  · subst hji
    rw [Function.update_self] at hj
    exact hcall x prev hj
  · rw [Function.update_of_ne hji] at hj
    exact hcalls j x prev hj

theorem Linear.test (h : Linear start s) (i : ℕ) {x prev : α} (hprev : prev ≤ s.value) :
    Linear start (s.test i x prev) := by
  unfold AtomicMax.test
  by_cases hx : x > prev
  · rw [if_pos hx]
    refine ⟨h.value, h.older, calls_update h.calls ?_⟩
    rintro x' prev' hcall
    cases hcall
    exact ⟨hx, hprev⟩
  · rw [if_neg hx]
    -- the argument is below a former value, so the call changes nothing
    have hle : x ≤ s.value := (not_lt.1 hx).trans hprev
    refine ⟨?_, h.older, calls_update h.calls (by simp)⟩
    rw [List.foldl_append, List.foldl_cons, List.foldl_nil, ← h.value, max_eq_left hle]

theorem Linear.step (h : Linear start s) (a : MaxAction α) : Linear start (s.step a) := by
  cases a with
  | load i x seen =>
    simp only [AtomicMax.step]
    cases s.calls i with
    | none => exact h.test i (h.read_le seen)
    | some _ => exact h
  | exchange i spurious seen =>
    simp only [AtomicMax.step]
    cases hi : s.calls i with
    | none => exact h
    | some call =>
      obtain ⟨x, prev⟩ := call
      obtain ⟨hlt, -⟩ := h.calls i x prev hi
      by_cases hswap : (!spurious && prev = s.value) = true
      · simp only [hswap, ite_true]
        obtain ⟨-, hprev⟩ := Bool.and_eq_true_iff.1 hswap
        have hprev : prev = s.value := by simpa using hprev
        subst hprev
        refine ⟨?_, ?_, calls_update ?_ (by simp)⟩
        · rw [List.foldl_append, List.foldl_cons, List.foldl_nil, ← h.value, max_eq_right hlt.le]
        · exact List.forall_mem_cons.2 ⟨hlt.le, fun y hy => (h.older y hy).trans hlt.le⟩
        · exact fun j y p hj => ⟨(h.calls j y p hj).1, (h.calls j y p hj).2.trans hlt.le⟩
      · simp only [hswap]
        exact h.test i (h.read_le seen)

/-- What a step of thread `i` in a call with argument `x` does. -/
structure Raises (i : ℕ) (x : α) (s s' : AtomicMax α) : Prop where
  others : ∀ j, j ≠ i → s'.calls j = s.calls j
  value_le : s.value ≤ s'.value
  value : s'.value = s.value ∨ s'.value = x
  call : (∃ prev, s'.calls i = some (x, prev)) ∨ s'.calls i = none ∧ x ≤ s'.value

theorem test_raises (s : AtomicMax α) (i : ℕ) {x prev : α} (hprev : prev ≤ s.value) :
    Raises i x s (s.test i x prev) := by
  unfold test
  by_cases hx : x > prev
  · rw [if_pos hx]
    exact ⟨fun j hj => Function.update_of_ne hj _ _, le_refl _, .inl rfl,
      .inl ⟨prev, Function.update_self _ _ _⟩⟩
  · rw [if_neg hx]
    exact ⟨fun j hj => Function.update_of_ne hj _ _, le_refl _, .inl rfl,
      .inr ⟨Function.update_self _ _ _, (not_lt.1 hx).trans hprev⟩⟩

theorem Linear.load_raises (h : Linear start s) {i : ℕ} (hi : s.calls i = none) (x : α)
    (seen : ℕ) : Raises i x s (s.step (.load i x seen)) := by
  simp only [AtomicMax.step, hi]
  exact s.test_raises i (h.read_le seen)

theorem Linear.exchange_raises (h : Linear start s) {i : ℕ} {x prev : α}
    (hi : s.calls i = some (x, prev)) (spurious : Bool) (seen : ℕ) :
    Raises i x s (s.step (.exchange i spurious seen)) := by
  obtain ⟨hlt, hle⟩ := h.calls i x prev hi
  simp only [AtomicMax.step, hi]
  by_cases hswap : (!spurious && prev = s.value) = true
  · rw [if_pos hswap]
    have hprev : prev = s.value := by simpa using (Bool.and_eq_true_iff.1 hswap).2
    exact ⟨fun j hj => Function.update_of_ne hj _ _, hprev ▸ hlt.le, .inr rfl,
      .inr ⟨Function.update_self _ _ _, le_refl _⟩⟩
  · rw [if_neg hswap]
    exact s.test_raises i (h.read_le seen)

end AtomicMax

end TradingTerminal.Lib
