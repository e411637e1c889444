import Mathlib.Data.Nat.Notation

/-!
# While loops

`Ends running body s t` says that the loop `while (running) body` started in `s` comes to an end, in
`t`. Not every loop does; a loop that does ends in one state only (`Ends.unique`).
-/

namespace TradingTerminal.Lib

variable {σ : Type*} (running : σ → Prop) (body : σ → σ)

inductive Ends : σ → σ → Prop
  | stop {s : σ} : ¬ running s → Ends s s
  | turn {s t : σ} : running s → Ends (body s) t → Ends s t

variable {running body}

theorem Ends.unique {s t t' : σ} (h : Ends running body s t) (h' : Ends running body s t') :
    t = t' := by
  induction h with
  | stop hstop =>
    cases h' with
    | stop => rfl
    | turn hturn => exact absurd hturn hstop
  | turn hturn _ ih =>
    cases h' with
    | stop hstop => exact absurd hturn hstop
    | turn _ hrest => exact ih hrest

theorem Ends.iff_eq {s t t' : σ} (h : Ends running body s t) : Ends running body s t' ↔ t' = t := by
  constructor
  · exact fun h' => h'.unique h
  · rintro rfl
    exact h

end TradingTerminal.Lib
