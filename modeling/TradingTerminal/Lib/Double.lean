import TradingTerminal.Lib.Numeral

/-!
# Doubles in texts

A text may also spell an infinity or a NaN, which `strtod` reads like a number. `stodDouble` is the
conversion with these, and with the two ways in which it fails told apart; on the texts of numbers it
is `stod` (`stodDouble_eq_finite`).
-/

namespace TradingTerminal.Lib

/-- A double read from a text: a number, taken exactly, or one of the special values. -/
inductive Double where
  | finite (q : ℚ)
  | infinite (negative : Bool)
  | nan
  deriving DecidableEq, Repr

/-- How a conversion throws: without a number at the front, or out of range. -/
inductive ConversionError where
  | invalidArgument
  | outOfRange
  deriving DecidableEq, Repr

/-- The text begins with a word of small letters, in letters of either case. -/
def beginsWith : List Char → List Char → Bool
  | [], _ => true
  | _ :: _, [] => false
  | w :: word, c :: s => (c = w || c = w.toUpper) && beginsWith word s

def takeSpecial (s : List Char) : Option Double :=
  let (negative, s) := takeSign (s.dropWhile isWhite)
  if beginsWith ['i', 'n', 'f'] s then some (.infinite negative)
  else if beginsWith ['n', 'a', 'n'] s then some .nan
  else none

def strtodDouble (s : List Char) : Option Double := takeSpecial s <|> (strtod s).map .finite

/-- The range is that of `stod`. -/
def stodDouble (s : List Char) : Except ConversionError Double :=
  match strtodDouble s with
  | none => .error .invalidArgument
  | some (.finite q) => if InDoubleRange q then .ok (.finite q) else .error .outOfRange
  | some d => .ok d

/-- A text that begins with a letter that is no digit holds no number. -/
theorem takeNumber_of_letter {c : Char} (hdigit : (digitValue c).filter (· < 10) = none)
    (hpoint : c ≠ '.') (hzero : c ≠ '0') (s : List Char) :
    takeHex (c :: s) = none ∧ takeDecimal (c :: s) = none := by
  have hdigits : takeDigits 10 (c :: s) = ([], c :: s) := by
    rw [takeDigits, hdigit]
  constructor
  · unfold takeHex
    split
    · next heq => exact absurd (List.cons.inj heq).1 hzero
    · rfl
  · have hmantissa : takeMantissa 10 (c :: s) = none := by
      unfold takeMantissa
      rw [hdigits]
      simp [hpoint]
    rw [takeDecimal, hmantissa, Option.map_none]

theorem beginsWith_cons {w : Char} {word s : List Char} (h : beginsWith (w :: word) s = true) :
    ∃ c rest, s = c :: rest ∧ (c = w ∨ c = w.toUpper) := by
  cases s with
  | nil => cases h
  | cons c rest =>
    rw [beginsWith, Bool.and_eq_true, Bool.or_eq_true, decide_eq_true_eq, decide_eq_true_eq] at h
    exact ⟨c, rest, rfl, h.1⟩

/-- Special values are no numbers. -/
theorem strtod_of_takeSpecial {s : List Char} {d : Double} (h : takeSpecial s = some d) :
    strtod s = none ∧ ∀ q, d ≠ .finite q := by
  unfold takeSpecial at h
  unfold strtod
  generalize takeSign (s.dropWhile isWhite) = signed at h ⊢
  obtain ⟨negative, s⟩ := signed
  dsimp only at h ⊢
  have hletter : ∀ c rest, s = c :: rest → c = 'i' ∨ c = 'I' ∨ c = 'n' ∨ c = 'N' →
      ((takeHex s <|> takeDecimal s).map (withSign negative)) = none := by
    rintro c rest rfl hc
    obtain ⟨hhex, hdecimal⟩ := takeNumber_of_letter (c := c)
      (by rcases hc with rfl | rfl | rfl | rfl <;> decide)
      (by rcases hc with rfl | rfl | rfl | rfl <;> decide)
      (by rcases hc with rfl | rfl | rfl | rfl <;> decide) rest
    rw [hhex, hdecimal]
    rfl
  split at h
  · next hinf =>
    obtain ⟨c, rest, hs, hc⟩ := beginsWith_cons hinf
    obtain rfl := Option.some.inj h
    exact ⟨hletter c rest hs (hc.imp id Or.inl), by simp⟩
  · split at h
    · next hnan =>
      obtain ⟨c, rest, hs, hc⟩ := beginsWith_cons hnan
      obtain rfl := Option.some.inj h
      exact ⟨hletter c rest hs (Or.inr (Or.inr hc)), by simp⟩
    · cases h

theorem stodDouble_eq_finite {s : List Char} {q : ℚ} :
    stodDouble s = .ok (.finite q) ↔ stod s = some q := by
  unfold stodDouble strtodDouble stod
  cases hspecial : takeSpecial s with
  | some d =>
    obtain ⟨hnumber, hfinite⟩ := strtod_of_takeSpecial hspecial
    rw [hnumber]
    cases d with
    | finite q' => exact absurd rfl (hfinite q')
    | infinite => simp
    | nan => simp
  | none =>
    cases hnumber : strtod s with
    | none => simp
    | some q' =>
      have hread : (none <|> (some q').map Double.finite) = some (.finite q') := rfl
      rw [hread]
      dsimp only
      split
      · next hrange => simp [Option.filter_some, hrange]
      · next hrange => simp [Option.filter_some, hrange]

end TradingTerminal.Lib
