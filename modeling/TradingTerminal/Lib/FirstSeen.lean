import Mathlib.Data.List.Induction
import Mathlib.Data.List.Nodup

/-!
# First appearances

`firstSeen keep xs` collects the elements of a list that are kept, each where it appears first, as a
loop does that pushes what it has not pushed before.
-/

namespace TradingTerminal.Lib

variable {α : Type*} [DecidableEq α] {keep : α → Bool} {xs : List α}

/-- One turn of the loop. -/
def pushNew (keep : α → Bool) (seen : List α) (x : α) : List α :=
  if keep x ∧ x ∉ seen then seen ++ [x] else seen

def firstSeen (keep : α → Bool) (xs : List α) : List α := xs.foldl (pushNew keep) []

theorem firstSeen_concat (keep : α → Bool) (xs : List α) (x : α) :
    firstSeen keep (xs ++ [x]) = pushNew keep (firstSeen keep xs) x := by
  rw [firstSeen, List.foldl_append]
  rfl

theorem mem_firstSeen {a : α} : a ∈ firstSeen keep xs ↔ a ∈ xs ∧ keep a = true := by
  induction xs using List.reverseRecOn with
  | nil => simp [firstSeen]
  | append_singleton xs x ih =>
    rw [firstSeen_concat, pushNew, List.mem_append, List.mem_singleton, or_and_right, ← ih]
    split
    · next h =>
      rw [List.mem_append, List.mem_singleton]
      exact or_congr_right ⟨fun ha => ⟨ha, ha ▸ h.1⟩, And.left⟩
    · next h =>
      refine ⟨Or.inl, fun ha => ha.elim id ?_⟩
      rintro ⟨rfl, hkeep⟩
      by_contra hnew
      exact h ⟨hkeep, hnew⟩

theorem nodup_firstSeen : (firstSeen keep xs).Nodup := by
  induction xs using List.reverseRecOn with
  | nil => exact List.nodup_nil
  | append_singleton xs x ih =>
    rw [firstSeen_concat, pushNew]
    split
    · next h =>
      rw [← List.concat_eq_append]
      exact ih.concat h.2
    · exact ih

/-- The elements stand in the order in which they appear first. -/
theorem pairwise_firstSeen :
    (firstSeen keep xs).Pairwise fun a b => xs.idxOf a < xs.idxOf b := by
  induction xs using List.reverseRecOn with
  | nil => exact List.Pairwise.nil
  | append_singleton xs x ih =>
    have hold : (firstSeen keep xs).Pairwise fun a b => (xs ++ [x]).idxOf a < (xs ++ [x]).idxOf b := by
      refine ih.imp_of_mem fun ha hb hab => ?_
      rw [List.idxOf_append_of_mem (mem_firstSeen.1 ha).1,
        List.idxOf_append_of_mem (mem_firstSeen.1 hb).1]
      exact hab
    rw [firstSeen_concat, pushNew]
    split
    · next h =>
      refine List.pairwise_append.2 ⟨hold, List.pairwise_singleton _ _, fun a ha b hb => ?_⟩
      obtain rfl := List.mem_singleton.1 hb
      have hnew : b ∉ xs := fun hmem => h.2 (mem_firstSeen.2 ⟨hmem, h.1⟩)
      have ha := (mem_firstSeen.1 ha).1
      rw [List.idxOf_append_of_mem ha, List.idxOf_append_of_notMem hnew]
      exact Nat.lt_add_right _ (List.idxOf_lt_length_iff.2 ha)
    · exact hold

end TradingTerminal.Lib
