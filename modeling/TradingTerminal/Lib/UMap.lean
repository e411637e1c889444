import Mathlib.Data.List.AList
import Mathlib.Algebra.BigOperators.Group.Finset.Basic
import Mathlib.Algebra.BigOperators.Group.List.Basic

/-!
# Unordered maps

`UMap κ β` is a finite map from `κ` to `β`: Mathlib's association lists without duplicate keys, at a
constant family. `getD` is the lookup with a default, what `operator[]` of a map reads when the
default is the value-initialised one. `sumBy` adds up a quantity over the entries of a map, as a
loop over an unordered map does; it does not depend on the order of the entries.
-/

namespace TradingTerminal.Lib

/-- A finite map from `κ` to `β`. -/
abbrev UMap (κ β : Type*) := AList fun _ : κ => β

namespace UMap

variable {κ β : Type*} [DecidableEq κ]

/-- The value at `k`, or `d` when `k` has none. -/
def getD (m : UMap κ β) (k : κ) (d : β) : β := (m.lookup k).getD d

@[simp] theorem getD_empty (k : κ) (d : β) : getD (∅ : UMap κ β) k d = d := by
  simp [getD]

theorem getD_insert (m : UMap κ β) (k k' : κ) (v d : β) :
    getD (m.insert k v) k' d = if k' = k then v else getD m k' d := by
  unfold getD
  split
  · next h => subst h; simp
  · next h => rw [AList.lookup_insert_ne h]

@[simp] theorem getD_insert_self (m : UMap κ β) (k : κ) (v d : β) :
    getD (m.insert k v) k d = v := by
  simp [getD_insert]

theorem getD_insert_ne (m : UMap κ β) {k k' : κ} (h : k' ≠ k) (v d : β) :
    getD (m.insert k v) k' d = getD m k' d := by
  simp [getD_insert, h]

/-- An insertion updates the function of lookups, also next to something that stays. -/
theorem update_getD {α : Type*} (a : α) (m : UMap κ β) (k : κ) (v d : β) :
    (fun k' => (a, getD (m.insert k v) k' d)) =
      Function.update (fun k' => (a, getD m k' d)) k (a, v) := by
  funext k'
  rw [Function.update_apply, getD_insert]
  split <;> rfl

theorem getD_erase (m : UMap κ β) (k k' : κ) (d : β) :
    getD (m.erase k) k' d = if k' = k then d else getD m k' d := by
  unfold getD
  split
  · next h => subst h; simp
  · next h => rw [AList.lookup_erase_ne h]

@[simp] theorem erase_insert_self (m : UMap κ β) (k : κ) (v : β) :
    (m.insert k v).erase k = m.erase k := by
  apply AList.ext
  change (AList.insert k v m).entries.kerase k = m.entries.kerase k
  rw [AList.entries_insert]
  exact List.kerase_cons_eq rfl

theorem eq_empty_of_lookup {m : UMap κ β} (h : ∀ k, m.lookup k = none) : m = ∅ := by
  apply AList.ext
  apply List.eq_nil_iff_forall_not_mem.2
  intro e he
  have hk : e.1 ∈ m := AList.mem_keys.2 (List.mem_map_of_mem he)
  exact AList.lookup_eq_none.1 (h e.1) hk

/-- A predicate that the default and every stored value satisfy holds of every lookup. -/
theorem getD_of {p : β → Prop} {m : UMap κ β} {d : β} (hd : p d)
    (h : ∀ k v, m.lookup k = some v → p v) (k : κ) : p (getD m k d) := by
  unfold getD
  cases hv : m.lookup k with
  | none => exact hd
  | some v => exact h k v hv

/-- The map with `v` at `k` for `some v`, without `k` for `none`. -/
def set (m : UMap κ β) (k : κ) : Option β → UMap κ β
  | some v => m.insert k v
  | none => m.erase k

theorem lookup_set (m : UMap κ β) (k k' : κ) (o : Option β) :
    (set m k o).lookup k' = if k' = k then o else m.lookup k' := by
  cases o with
  | none =>
    split
    · next h => rw [h, set, AList.lookup_erase]
    · next h => rw [set, AList.lookup_erase_ne h]
  | some v =>
    split
    · next h => rw [h, set, AList.lookup_insert]
    · next h => rw [set, AList.lookup_insert_ne h]

theorem mem_set (m : UMap κ β) (k k' : κ) (o : Option β) :
    k' ∈ set m k o ↔ if k' = k then o.isSome = true else k' ∈ m := by
  rw [← AList.lookup_isSome, lookup_set]
  split
  · rfl
  · rw [AList.lookup_isSome]

theorem getD_set (m : UMap κ β) (k k' : κ) (o : Option β) (d : β) :
    getD (set m k o) k' d = if k' = k then o.getD d else getD m k' d := by
  rw [getD, lookup_set]
  split <;> rfl

/-- If every entry is related to the value of a function, it stays so when both change at one key. -/
theorem forall_getD_set {α : Type*} {R : β → α → Prop} {m : UMap κ β} {d : β} {a : κ → α}
    (h : ∀ k, R (getD m k d) (a k)) {k : κ} {o : Option β} {c : α} (hk : R (o.getD d) c) :
    ∀ k', R (getD (set m k o) k' d) (Function.update a k c k') := by
  intro k'
  rw [getD_set, Function.update_apply]
  split
  · exact hk
  · exact h k'

theorem forall_mem_set {α : Type*} {q : α → Prop} {m : UMap κ β} {a : κ → α}
    (h : ∀ k, k ∈ m ↔ q (a k)) {k : κ} {o : Option β} {c : α} (hk : o.isSome = true ↔ q c) :
    ∀ k', k' ∈ set m k o ↔ q (Function.update a k c k') := by
  intro k'
  rw [mem_set, Function.update_apply]
  split
  · exact hk
  · exact h k'

/-- Some map gives all the keys of a list one value. -/
theorem exists_lookup_eq_some (ks : List κ) (v : β) :
    ∃ m : UMap κ β, ∀ k ∈ ks, m.lookup k = some v := by
  induction ks with
  | nil => exact ⟨∅, by simp⟩
  | cons k ks ih =>
    obtain ⟨m, hm⟩ := ih
    refine ⟨m.insert k v, ?_⟩
    intro k' hk'
    by_cases h : k' = k
    · rw [h, AList.lookup_insert]
    · rw [AList.lookup_insert_ne h]
      exact hm k' ((List.mem_cons.1 hk').resolve_left h)

/-! ## Sums over the entries -/

section Sum

variable {M : Type*} [AddCommGroup M]

/-- The sum of `f` over the entries of a map. -/
def sumBy (m : UMap κ β) (f : κ → β → M) : M := (m.entries.map fun e => f e.1 e.2).sum

/-- What the entry at `k` adds to the sum. -/
def termAt (m : UMap κ β) (f : κ → β → M) (k : κ) : M := (m.lookup k).elim 0 (f k)

omit [DecidableEq κ] in
@[simp] theorem sumBy_empty (f : κ → β → M) : sumBy (∅ : UMap κ β) f = 0 := by
  simp [sumBy]

theorem termAt_of_lookup {m : UMap κ β} {f : κ → β → M} {k : κ} {v : β}
    (h : m.lookup k = some v) : termAt m f k = f k v := by
  rw [termAt, h, Option.elim_some]

theorem termAt_of_lookup_none {m : UMap κ β} {f : κ → β → M} {k : κ}
    (h : m.lookup k = none) : termAt m f k = 0 := by
  rw [termAt, h, Option.elim_none]

theorem sumBy_erase (m : UMap κ β) (f : κ → β → M) (k : κ) :
    sumBy (m.erase k) f = sumBy m f - termAt m f k := by
  have hlist : ∀ l : List (Sigma fun _ : κ => β),
      ((l.kerase k).map fun e => f e.1 e.2).sum + (l.dlookup k).elim 0 (f k) =
        (l.map fun e => f e.1 e.2).sum := by
    intro l
    induction l with
    | nil => simp
    | cons e l ih =>
      by_cases h : k = e.1
      · rw [List.kerase_cons_eq h]
        obtain ⟨a, b⟩ := e
        obtain rfl : k = a := h
        rw [List.dlookup_cons_eq, Option.elim_some, List.map_cons, List.sum_cons, add_comm]
      · rw [List.kerase_cons_ne h, List.dlookup_cons_ne l e h, List.map_cons, List.map_cons,
          List.sum_cons, List.sum_cons, ← ih, add_assoc]
  rw [eq_sub_iff_add_eq]
  exact hlist m.entries

theorem sumBy_insert (m : UMap κ β) (f : κ → β → M) (k : κ) (v : β) :
    sumBy (m.insert k v) f = sumBy m f - termAt m f k + f k v := by
  rw [← sumBy_erase, sumBy, AList.entries_insert, List.map_cons, List.sum_cons, add_comm]
  rfl

theorem sumBy_insert_of_notMem {m : UMap κ β} {f : κ → β → M} {k : κ} {v : β} (h : k ∉ m) :
    sumBy (m.insert k v) f = sumBy m f + f k v := by
  rw [sumBy_insert, termAt_of_lookup_none (AList.lookup_eq_none.2 h), sub_zero]

/-- Replacing an entry by one that counts the same leaves the sum alone. -/
theorem sumBy_insert_of_eq {m : UMap κ β} {f : κ → β → M} {k : κ} {v v' : β}
    (h : m.lookup k = some v) (hf : f k v' = f k v) : sumBy (m.insert k v') f = sumBy m f := by
  rw [sumBy_insert, termAt_of_lookup h, hf, sub_add_cancel]

theorem sumBy_set (m : UMap κ β) (f : κ → β → M) (k : κ) (o : Option β) :
    sumBy (set m k o) f = sumBy m f - termAt m f k + o.elim 0 (f k) := by
  cases o with
  | none => rw [set, sumBy_erase, Option.elim_none, add_zero]
  | some v => rw [set, sumBy_insert, Option.elim_some]

/-- Over any set that contains the keys, the sum over the map is the sum of the terms. -/
theorem sumBy_eq_sum {m : UMap κ β} {f : κ → β → M} {s : Finset κ} (hs : ∀ k ∈ m, k ∈ s) :
    sumBy m f = ∑ k ∈ s, termAt m f k := by
  induction m using AList.insertRec generalizing s with
  | H0 => simp [termAt]
  | IH k v m hk ih =>
    have hmem : k ∈ s := hs k ((AList.mem_insert m).2 (Or.inl rfl))
    have hrest : ∀ k' ∈ m, k' ∈ s.erase k := by
      intro k' hk'
      refine Finset.mem_erase.2 ⟨?_, hs k' ((AList.mem_insert m).2 (Or.inr hk'))⟩
      rintro rfl
      exact hk hk'
    have hterms : ∀ k' ∈ s.erase k, termAt (m.insert k v) f k' = termAt m f k' := by
      intro k' hk'
      rw [termAt, AList.lookup_insert_ne (Finset.ne_of_mem_erase hk'), termAt]
    rw [sumBy_insert, termAt_of_lookup_none (AList.lookup_eq_none.2 hk), sub_zero, ih hrest,
      ← Finset.sum_erase_add s _ hmem, Finset.sum_congr rfl hterms,
      termAt_of_lookup (AList.lookup_insert m)]

/-- The sum depends on the looked-up values only. -/
theorem sumBy_congr {γ : Type*} {m : UMap κ β} {m' : UMap κ γ} {f : κ → β → M} {g : κ → γ → M}
    (h : ∀ k, termAt m f k = termAt m' g k) (hkeys : ∀ k, k ∈ m ↔ k ∈ m') :
    sumBy m f = sumBy m' g := by
  have hs : ∀ k ∈ m, k ∈ m.keys.toFinset := fun k hk => List.mem_toFinset.2 (AList.mem_keys.1 hk)
  rw [sumBy_eq_sum hs, sumBy_eq_sum fun k hk => hs k ((hkeys k).2 hk),
    Finset.sum_congr rfl fun k _ => h k]

/-- The sum depends on the entries only. -/
theorem sumBy_congr_of_mem {m : UMap κ β} {f g : κ → β → M}
    (h : ∀ k v, m.lookup k = some v → f k v = g k v) : sumBy m f = sumBy m g := by
  refine sumBy_congr (fun k => ?_) fun _ => Iff.rfl
  cases hv : m.lookup k with
  | none => rw [termAt_of_lookup_none hv, termAt_of_lookup_none hv]
  | some v => rw [termAt_of_lookup hv, termAt_of_lookup hv, h k v hv]

omit [DecidableEq κ] in
theorem sumBy_sub (m : UMap κ β) (f g : κ → β → M) :
    (sumBy m fun k v => f k v - g k v) = sumBy m f - sumBy m g := by
  unfold sumBy
  induction m.entries with
  | nil => simp
  | cons e l ih => rw [List.map_cons, List.sum_cons, ih, List.map_cons, List.sum_cons, List.map_cons,
      List.sum_cons, add_sub_add_comm]

end Sum

end UMap

end TradingTerminal.Lib
