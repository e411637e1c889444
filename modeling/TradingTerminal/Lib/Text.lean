import Mathlib.Data.List.DropRight

/-!
# Texts

A text is a list over some alphabet, with a test for the letters that count as space. `trim` takes
the space off both ends; `getlines` cuts a text at a delimiter the way repeated `getline` calls do:
the pieces before each delimiter, and what follows the last one unless it is empty. `find` is the
search for a word.
-/

namespace TradingTerminal.Lib

variable {α : Type*}

section Trim

variable (space : α → Bool)

def trim (s : List α) : List α := (s.dropWhile space).rdropWhile space

/-- Only space. -/
def Blank (s : List α) : Prop := ∀ c ∈ s, space c = true

/-- No space at either end. -/
def Trimmed (s : List α) : Prop :=
  (∀ c ∈ s.head?, space c = false) ∧ ∀ c ∈ s.getLast?, space c = false

instance (s : List α) : Decidable (Blank space s) :=
  inferInstanceAs (Decidable (∀ c ∈ s, _))

instance (s : List α) : Decidable (Trimmed space s) :=
  inferInstanceAs (Decidable (_ ∧ _))

variable {space}

theorem Blank.append {s t : List α} (hs : Blank space s) (ht : Blank space t) :
    Blank space (s ++ t) := by
  intro c hc
  exact (List.mem_append.1 hc).elim (hs c) (ht c)

theorem Blank.notMem {s : List α} (hs : Blank space s) {c : α} (hc : space c = false) : c ∉ s := by
  intro hmem
  rw [hs c hmem] at hc
  cases hc

theorem Trimmed.dropWhile {s : List α} (hs : Trimmed space s) (hne : s ≠ []) (t : List α) :
    (s ++ t).dropWhile space = s ++ t := by
  cases s with
  | nil => exact absurd rfl hne
  | cons c s => rw [List.cons_append, List.dropWhile_cons_of_neg (by simp [hs.1 c (by simp)])]

theorem Trimmed.of_ends {s t : List α} (hs : Trimmed space s) (hs0 : s ≠ []) (ht : Trimmed space t)
    (ht0 : t ≠ []) (m : List α) : Trimmed space (s ++ (m ++ t)) := by
  constructor
  · rw [List.head?_append_of_ne_nil _ hs0]
    exact hs.1
  · rw [← List.append_assoc, List.getLast?_append_of_ne_nil _ ht0]
    exact ht.2

theorem rdropWhile_append_blank {s t : List α} (ht : Blank space t) :
    (s ++ t).rdropWhile space = s.rdropWhile space := by
  rw [List.rdropWhile, List.reverse_append, List.dropWhile_append_of_pos, List.rdropWhile]
  intro c hc
  exact ht c (List.mem_reverse.1 hc)

theorem Trimmed.rdropWhile {s : List α} (hs : Trimmed space s) : s.rdropWhile space = s := by
  rw [List.rdropWhile_eq_self_iff]
  intro hne
  rw [Bool.not_eq_true]
  exact hs.2 _ (List.getLast_mem_getLast? hne)

theorem trim_blank {s : List α} (hs : Blank space s) : trim space s = [] := by
  rw [trim, List.dropWhile_eq_nil_iff.2 hs, List.rdropWhile_nil]

/-- Trimming takes off exactly the space around a trimmed text. -/
theorem trim_surround {v w s : List α} (hv : Blank space v) (hs : Trimmed space s)
    (hw : Blank space w) : trim space (v ++ (s ++ w)) = s := by
  by_cases hne : s = []
  · rw [hne, List.nil_append]
    exact trim_blank (hv.append hw)
  · rw [trim, List.dropWhile_append_of_pos hv, hs.dropWhile hne, rdropWhile_append_blank hw,
      hs.rdropWhile]

theorem trim_left {v s : List α} (hv : Blank space v) (hs : Trimmed space s) :
    trim space (v ++ s) = s := by
  have h := trim_surround hv hs (w := []) (by simp [Blank])
  rwa [List.append_nil] at h

theorem trim_right {s w : List α} (hs : Trimmed space s) (hw : Blank space w) :
    trim space (s ++ w) = s :=
  trim_surround (v := []) (by simp [Blank]) hs hw

theorem trim_of_trimmed {s : List α} (hs : Trimmed space s) : trim space s = s :=
  trim_left (v := []) (by simp [Blank]) hs

end Trim

section Lines

variable [DecidableEq α]

/-- The pieces that repeated calls of `getline` return. -/
def getlines (delim : α) : List α → List (List α)
  | [] => []
  | c :: s =>
    if c = delim then [] :: getlines delim s
    else
      match getlines delim s with
      | [] => [[c]]
      | line :: lines => (c :: line) :: lines

variable {delim : α}

/-- A piece up to a delimiter. -/
theorem getlines_append_delim {s : List α} (hs : delim ∉ s) (t : List α) :
    getlines delim (s ++ delim :: t) = s :: getlines delim t := by
  induction s with
  | nil => simp [getlines]
  | cons c s ih =>
    have hc : c ≠ delim := fun h => hs (h ▸ List.mem_cons_self)
    rw [List.cons_append, getlines, if_neg hc, ih fun h => hs (List.mem_cons_of_mem c h)]

/-- A last piece without a delimiter behind it. -/
theorem getlines_of_notMem {s : List α} (hs : delim ∉ s) (hne : s ≠ []) : getlines delim s = [s] := by
  induction s with
  | nil => exact absurd rfl hne
  | cons c s ih =>
    have hc : c ≠ delim := fun h => hs (h ▸ List.mem_cons_self)
    rw [getlines, if_neg hc]
    by_cases hnil : s = []
    · rw [hnil, getlines]
    · rw [ih (fun h => hs (List.mem_cons_of_mem c h)) hnil]

/-- A text that calls of `getline` take apart, and whether the stream is still good. -/
structure LineStream (α : Type*) where
  rest : List α
  good : Bool := true

/-- One call of `getline` into `token`: a stream that has come to its end leaves the token as it
was. -/
def getline (delim : α) (ss : LineStream α) (token : List α) : LineStream α × List α :=
  if !ss.good then (ss, token)
  else if delim ∈ ss.rest then
    ({ rest := (ss.rest.dropWhile (· ≠ delim)).drop 1 }, ss.rest.takeWhile (· ≠ delim))
  else ({ rest := [], good := false }, ss.rest)

/-- A text is cut at its first delimiter, or not at all. -/
theorem delim_cases (delim : α) (s : List α) :
    delim ∉ s ∨ ∃ a t, delim ∉ a ∧ s = a ++ delim :: t := by
  by_cases h : delim ∈ s
  · obtain ⟨a, t, hs, ha⟩ := List.eq_append_cons_of_mem h
    exact Or.inr ⟨a, t, ha, hs⟩
  · exact Or.inl h

/-- The call takes the text up to the first delimiter. -/
theorem getline_append_delim {s : List α} (hs : delim ∉ s) (t token : List α) :
    getline delim { rest := s ++ delim :: t } token = ({ rest := t }, s) := by
  have htake : (s ++ delim :: t).takeWhile (· ≠ delim) = s := by
    rw [List.takeWhile_append_of_pos (fun c hc => by simpa using fun h : c = delim => hs (h ▸ hc))]
    simp
  have hdrop : (s ++ delim :: t).dropWhile (· ≠ delim) = delim :: t := by
    rw [List.dropWhile_append_of_pos (fun c hc => by simpa using fun h : c = delim => hs (h ▸ hc))]
    simp
  rw [getline, if_neg (by simp), if_pos (by simp), htake, hdrop, List.drop_one, List.tail_cons]

/-- Without a delimiter it takes all of it, and the stream is at its end. -/
theorem getline_of_notMem {s : List α} (hs : delim ∉ s) (token : List α) :
    getline delim { rest := s } token = ({ rest := [], good := false }, s) := by
  rw [getline, if_neg (by simp), if_neg hs]

/-- The first delimiter behind a text without one. -/
theorem idxOf_append_delim {s : List α} (hs : delim ∉ s) (t : List α) :
    (s ++ delim :: t).idxOf delim = s.length := by
  rw [List.idxOf_append_of_notMem hs, List.idxOf_cons_self, Nat.add_zero]

end Lines

section Find

variable [DecidableEq α]

/-- The position at which a word is found first. -/
def find (word : List α) : List α → Option Nat
  | [] => if word = [] then some 0 else none
  | c :: s => if word <+: c :: s then some 0 else (find word s).map (· + 1)

theorem find_isSome_iff {word s : List α} : (find word s).isSome = true ↔ word <:+: s := by
  induction s with
  | nil =>
    rw [find, List.infix_nil]
    by_cases h : word = [] <;> simp [h]
  | cons c s ih =>
    rw [find, List.infix_cons_iff, ← ih]
    by_cases h : word <+: c :: s <;> simp [h]

end Find

end TradingTerminal.Lib
