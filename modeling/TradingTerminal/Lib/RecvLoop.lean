import Mathlib.Data.List.Flatten
import Mathlib.Algebra.BigOperators.Group.List.Basic
import Mathlib.Algebra.Order.Ring.Nat

/-!
# Receive loops without reassembly

`recvLoop handle` gives every received chunk to `handle` on its own and collects what is handed over;
a fault of `handle` ends the loop. When every message costs at least so many bytes of its chunk, the
messages of a run can only account for all bytes received if every chunk is exactly one message
(`recvLoop_aligned`).
-/

namespace TradingTerminal.Lib

variable {β γ ε α : Type*} (handle : List β → Except ε (Option γ))

/-- What a loop hands over that handles each chunk by itself, and the fault that ended it, if any. -/
def recvLoop : List (List β) → List γ × Option ε
  | [] => ([], none)
  | chunk :: chunks =>
    match handle chunk with
    | .error e => ([], some e)
    | .ok none => recvLoop chunks
    | .ok (some message) =>
      let (messages, fault) := recvLoop chunks
      (message :: messages, fault)

variable {handle}

/-- Chunks that are one message each are all handed over. -/
theorem recvLoop_map {bytes : α → List β} {message : α → γ} {xs : List α}
    (h : ∀ x ∈ xs, handle (bytes x) = .ok (some (message x))) :
    recvLoop handle (xs.map bytes) = (xs.map message, none) := by
  induction xs with
  | nil => rfl
  | cons x xs ih =>
    rw [List.map_cons, recvLoop, h x List.mem_cons_self,
      ih fun y hy => h y (List.mem_cons_of_mem x hy)]
    rfl

variable {cost : γ → Nat}
  (hcost : ∀ chunk message, handle chunk = .ok (some message) → cost message ≤ chunk.length)

include hcost in
theorem recvLoop_cost_le (chunks : List (List β)) :
    ((recvLoop handle chunks).1.map cost).sum ≤ (chunks.map List.length).sum := by
  induction chunks with
  | nil => exact Nat.le_refl 0
  | cons chunk chunks ih =>
    rw [recvLoop, List.map_cons, List.sum_cons]
    cases hc : handle chunk with
    | error e => simp
    | ok r =>
      cases r with
      | none => exact ih.trans (Nat.le_add_left _ _)
      | some message =>
        rw [List.map_cons, List.sum_cons]
        exact Nat.add_le_add (hcost chunk message hc) ih

include hcost in
/-- If the messages handed over cost as much as all chunks together, every chunk is the size of its
message. -/
theorem recvLoop_aligned {chunks : List (List β)} (hne : ∀ chunk ∈ chunks, chunk ≠ [])
    (hsum : ((recvLoop handle chunks).1.map cost).sum = (chunks.map List.length).sum) :
    chunks.map List.length = (recvLoop handle chunks).1.map cost := by
  induction chunks with
  | nil => rfl
  | cons chunk chunks ih =>
    obtain ⟨hne1, hne2⟩ := List.forall_mem_cons.1 hne
    have hpos : 0 < chunk.length := List.length_pos_iff.2 hne1
    have hrest := recvLoop_cost_le hcost chunks
    rw [recvLoop, List.map_cons, List.sum_cons] at hsum
    rw [recvLoop, List.map_cons]
    cases hc : handle chunk with
    | error e => rw [hc] at hsum; simp at hsum; omega
    | ok r =>
      cases r with
      | none => rw [hc] at hsum; simp only at hsum; omega
      | some message =>
        have hle := hcost chunk message hc
        rw [hc] at hsum
        simp only [List.map_cons, List.sum_cons] at hsum ⊢
        rw [ih hne2 (by omega)]
        congr 1
        omega

end TradingTerminal.Lib
