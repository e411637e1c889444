import TradingTerminal.Lib.Throwing
import Mathlib.Data.List.Forall2
import Mathlib.Data.List.Pairwise

/-!
# Loops that an exception leaves

A loop gives its items to a call that may hand something over and may throw, with or without having
handed it over; the exception leaves the loop. `untilError_fst_iff` says when nothing is lost by
that: no item that hands something over comes after one that throws. `ofExcept` is a call that
hands something over only where it returns.
-/

namespace TradingTerminal.Lib

variable {α γ ε : Type*} (handle : α → Option γ × Option ε)

/-- What the loop hands over, and the exception that left it. -/
def untilError : List α → List γ × Option ε
  | [] => ([], none)
  | x :: xs =>
    match handle x with
    | (y, some e) => (y.toList, some e)
    | (y, none) => (y.toList ++ (untilError xs).1, (untilError xs).2)

/-- Nothing is handed over after an exception. -/
def Undisturbed (xs : List α) : Prop :=
  xs.Pairwise fun x y => (handle x).2 ≠ none → (handle y).1 = none

variable {handle} {x : α} {xs : List α}

theorem untilError_cons_some {e : ε} (h : (handle x).2 = some e) :
    untilError handle (x :: xs) = ((handle x).1.toList, some e) := by
  have hx : handle x = ((handle x).1, some e) := Prod.ext rfl h
  rw [untilError]
  split
  · next y e' heq =>
    rw [heq] at hx ⊢
    rw [(Prod.mk.inj hx).2]
  · next y heq =>
    rw [heq] at hx
    exact absurd (Prod.mk.inj hx).2 (by simp)

theorem untilError_cons_none (h : (handle x).2 = none) :
    untilError handle (x :: xs) =
      ((handle x).1.toList ++ (untilError handle xs).1, (untilError handle xs).2) := by
  have hx : handle x = ((handle x).1, none) := Prod.ext rfl h
  rw [untilError]
  split
  · next y e heq =>
    rw [heq] at hx
    exact absurd (Prod.mk.inj hx).2 (by simp)
  · next y heq => rw [heq]

theorem filterMap_fst_cons (x : α) (xs : List α) :
    (x :: xs).filterMap (fun x => (handle x).1) =
      (handle x).1.toList ++ xs.filterMap (fun x => (handle x).1) := by
  cases h : (handle x).1 with
  | none => simp [h]
  | some y => simp [h]

/-- What is handed over is a first part of what the items hand over alone. -/
theorem untilError_isPrefix (xs : List α) :
    (untilError handle xs).1 <+: xs.filterMap fun x => (handle x).1 := by
  induction xs with
  | nil => exact List.prefix_refl _
  | cons x xs ih =>
    rw [filterMap_fst_cons]
    cases h : (handle x).2 with
    | some e =>
      rw [untilError_cons_some h]
      exact List.prefix_append _ _
    | none =>
      rw [untilError_cons_none h]
      exact (List.prefix_append_right_inj _).2 ih

/-- **Nothing is lost** exactly if nothing is handed over after an exception. -/
theorem untilError_fst_iff (xs : List α) :
    (untilError handle xs).1 = xs.filterMap (fun x => (handle x).1) ↔ Undisturbed handle xs := by
  induction xs with
  | nil => simp [untilError, Undisturbed]
  | cons x xs ih =>
    rw [Undisturbed, List.pairwise_cons, filterMap_fst_cons]
    cases h : (handle x).2 with
    | some e =>
      rw [untilError_cons_some h, List.self_eq_append_right, List.filterMap_eq_nil_iff]
      constructor
      · intro hnone
        exact ⟨fun y hy _ => hnone y hy,
          List.pairwise_of_forall_mem_list fun _ _ y hy _ => hnone y hy⟩
      · rintro ⟨hnone, -⟩ y hy
        exact hnone y hy (by simp)
    | none =>
      rw [untilError_cons_none h, List.append_cancel_left_eq, ih]
      constructor
      · intro hxs
        exact ⟨fun y hy hthrows => absurd rfl hthrows, hxs⟩
      · exact And.right

/-- The loop is left by the exception of the first item that throws. -/
theorem untilError_snd (xs : List α) (e : ε) :
    (untilError handle xs).2 = some e ↔
      ∃ pre x post, xs = pre ++ x :: post ∧ (∀ y ∈ pre, (handle y).2 = none) ∧
        (handle x).2 = some e := by
  induction xs with
  | nil => simp [untilError]
  | cons x xs ih =>
    cases h : (handle x).2 with
    | some e' =>
      rw [untilError_cons_some h, Option.some.injEq]
      constructor
      · rintro rfl
        exact ⟨[], x, xs, rfl, by simp, h⟩
      · rintro ⟨pre, x', post, heq, hpre, he⟩
        cases pre with
        | nil =>
          obtain ⟨rfl, -⟩ := List.cons.inj heq
          rw [h] at he
          exact Option.some.inj he
        | cons z pre =>
          obtain ⟨rfl, -⟩ := List.cons.inj heq
          simpa [h] using hpre x List.mem_cons_self
    | none =>
      rw [untilError_cons_none h, ih]
      constructor
      · rintro ⟨pre, x', post, rfl, hpre, he⟩
        exact ⟨x :: pre, x', post, rfl, List.forall_mem_cons.2 ⟨h, hpre⟩, he⟩
      · rintro ⟨pre, x', post, heq, hpre, he⟩
        cases pre with
        | nil =>
          obtain ⟨rfl, rfl⟩ := List.cons.inj heq
          rw [h] at he
          cases he
        | cons z pre =>
          obtain ⟨rfl, rfl⟩ := List.cons.inj heq
          exact ⟨pre, x', post, rfl, (List.forall_mem_cons.1 hpre).2, he⟩

/-! ## Calls that hand over what they return -/

/-- A call that hands over what it returns, and nothing where it throws. -/
def ofExcept : Except ε γ → Option γ × Option ε
  | .ok y => (some y, none)
  | .error e => (none, some e)

theorem ofExcept_snd_eq_none {x : Except ε γ} : (ofExcept x).2 = none ↔ Returns x := by
  cases x with
  | ok y => exact iff_of_true rfl (returns_ok y)
  | error e => exact iff_of_false (by simp [ofExcept]) (not_returns_error e)

theorem ofExcept_snd_eq_some {x : Except ε γ} {e : ε} :
    (ofExcept x).2 = some e ↔ x = .error e := by
  cases x <;> simp [ofExcept]

/-- A loop in which every item hands something over ends by itself exactly if none throws. -/
theorem untilError_ofExcept {f : α → Except ε γ} {xs : List α} {ys : List γ} :
    untilError (fun x => ofExcept (f x)) xs = (ys, none) ↔
      List.Forall₂ (fun x y => f x = .ok y) xs ys := by
  induction xs generalizing ys with
  | nil => simp [untilError, eq_comm]
  | cons x xs ih =>
    cases h : f x with
    | error e =>
      rw [untilError_cons_some (e := e) (by rw [h]; rfl)]
      simp [h, List.forall₂_cons_left_iff]
    | ok y =>
      rw [untilError_cons_none (by rw [h]; rfl), h, Prod.mk.injEq]
      constructor
      · rintro ⟨rfl, hrest⟩
        exact .cons h (ih.1 (Prod.ext rfl hrest))
      · intro hall
        cases hall with
        | cons hy hrest =>
          obtain rfl := Except.ok.inj (h.symm.trans hy)
          have hxs := ih.2 hrest
          exact ⟨by rw [hxs]; rfl, by rw [hxs]⟩

end TradingTerminal.Lib
