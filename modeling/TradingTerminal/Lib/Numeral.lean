import Mathlib.Data.Nat.Digits.Lemmas
import Mathlib.Algebra.Order.Field.Rat
import Mathlib.Data.Rat.Floor
import Mathlib.Tactic.IntervalCases

/-!
# Numbers in texts

The conversions of the C++ library between numbers and texts, for exact rationals. `stod` and `stoi`
skip white space, read the longest numeral at the front and ignore what follows it; they fail where
the library throws, on a text without a numeral and on a number out of range. `toFixed` writes a
number with a fixed count of decimals.

The texts of infinities and of NaN, which are no rationals, count as texts without a numeral.
-/

namespace TradingTerminal.Lib

/-- The white space that a conversion skips. -/
def isWhite (c : Char) : Bool :=
  c = ' ' || c = '\t' || c = '\n' || c = '\x0b' || c = '\x0c' || c = '\r'

def digitValue (c : Char) : Option Nat :=
  if '0' ≤ c ∧ c ≤ '9' then some (c.toNat - '0'.toNat)
  else if 'a' ≤ c ∧ c ≤ 'f' then some (c.toNat - 'a'.toNat + 10)
  else if 'A' ≤ c ∧ c ≤ 'F' then some (c.toNat - 'A'.toNat + 10)
  else none

/-- The digits of a base at the front of a text, and the text behind them. -/
def takeDigits (base : Nat) : List Char → List Nat × List Char
  | [] => ([], [])
  | c :: s =>
    match (digitValue c).filter (· < base) with
    | some d => let (ds, rest) := takeDigits base s; (d :: ds, rest)
    | none => ([], c :: s)

/-- The sign at the front of a text, `true` for a minus. -/
def takeSign : List Char → Bool × List Char
  | '-' :: s => (true, s)
  | '+' :: s => (false, s)
  | s => (false, s)

def withSign {α : Type} [Neg α] (negative : Bool) (n : α) : α := if negative then -n else n

def takeInt (s : List Char) : Option Int :=
  let (negative, s) := takeSign s
  let (ds, _) := takeDigits 10 s
  if ds = [] then none else some (withSign negative (Nat.ofDigits 10 ds.reverse))

/-- Digits with a point among them or at one end, and the text behind them. -/
def takeMantissa (base : Nat) (s : List Char) : Option (ℚ × List Char) :=
  let (whole, s) := takeDigits base s
  let (fraction, s) := match s with
    | '.' :: s => takeDigits base s
    | s => ([], s)
  if whole = [] ∧ fraction = [] then none
  else
    let n : Nat := Nat.ofDigits base (whole ++ fraction).reverse
    some (n / base ^ fraction.length, s)

/-- The exponent behind a mantissa, zero without one. -/
def takeExponent (mark : Char) : List Char → Int
  | c :: s => if c.toLower = mark then (takeInt s).getD 0 else 0
  | [] => 0

def takeDecimal (s : List Char) : Option ℚ :=
  (takeMantissa 10 s).map fun (mantissa, s) => mantissa * 10 ^ takeExponent 'e' s

def takeHex : List Char → Option ℚ
  | '0' :: x :: s =>
    if x.toLower = 'x' then
      (takeMantissa 16 s).map fun (mantissa, s) => mantissa * 2 ^ takeExponent 'p' s
    else none
  | _ => none

def strtod (s : List Char) : Option ℚ :=
  let (negative, s) := takeSign (s.dropWhile isWhite)
  (takeHex s <|> takeDecimal s).map (withSign negative)

/-- The range of normal doubles, with the numbers that round to its ends. -/
def InDoubleRange (q : ℚ) : Prop := q = 0 ∨ 2 ^ (-1022 : Int) ≤ |q| ∧ |q| < 2 ^ 1024 - 2 ^ 970

instance (q : ℚ) : Decidable (InDoubleRange q) :=
  inferInstanceAs (Decidable (_ ∨ _))

def stod (s : List Char) : Option ℚ := (strtod s).filter fun q => InDoubleRange q

def stoi (s : List Char) : Option Int :=
  (takeInt (s.dropWhile isWhite)).filter fun n => -2 ^ 31 ≤ n ∧ n < 2 ^ 31

/-- A minus in front negates modulo `2 ^ 64`. -/
def stoull (s : List Char) : Option UInt64 :=
  let (negative, s) := takeSign (s.dropWhile isWhite)
  let (ds, _) := takeDigits 10 s
  let n := Nat.ofDigits 10 ds.reverse
  if ds = [] ∨ 2 ^ 64 ≤ n then none else some (withSign negative (UInt64.ofNat n))

/-- The nearest integer, the even one of two. -/
def roundHalfEven (q : ℚ) : Int :=
  let below := ⌊q⌋
  if q - below < 1 / 2 then below
  else if 1 / 2 < q - below then below + 1
  else if below % 2 = 0 then below
  else below + 1

/-- The digits of a number, without leading zeros. -/
def decimalDigits (n : Nat) : List Nat := if n = 0 then [0] else (Nat.digits 10 n).reverse

/-- The last `places` digits of a number, with leading zeros. -/
def lastDigits : Nat → Nat → List Nat
  | 0, _ => []
  | places + 1, n => lastDigits places (n / 10) ++ [n % 10]

/-- The `%f` of `printf` with a count of decimals. -/
def toFixed (places : Nat) (q : ℚ) : List Char :=
  let scaled := (roundHalfEven (|q| * 10 ^ places)).toNat
  (if q < 0 then ['-'] else []) ++ ((decimalDigits (scaled / 10 ^ places)).map Nat.digitChar ++
    '.' :: (lastDigits places scaled).map Nat.digitChar)

/-! ## Reading back -/

/-- A digit of base ten. -/
def IsDigit (c : Char) : Prop := ((digitValue c).filter (· < 10)).isSome = true

instance (c : Char) : Decidable (IsDigit c) := inferInstanceAs (Decidable (_ = true))

theorem digitValue_digitChar {d : Nat} (h : d < 10) : digitValue d.digitChar = some d := by
  interval_cases d <;> decide

/-- Written digits are taken back, up to what is no digit. -/
theorem takeDigits_digitChar {ds : List Nat} (hds : ∀ d ∈ ds, d < 10) {rest : List Char}
    (hrest : ∀ c ∈ rest.head?, ¬ IsDigit c) :
    takeDigits 10 (ds.map Nat.digitChar ++ rest) = (ds, rest) := by
  induction ds with
  | nil =>
    cases rest with
    | nil => rfl
    | cons c rest =>
      have hc : (digitValue c).filter (· < 10) = none := by
        simpa only [IsDigit, Bool.not_eq_true, Option.isSome_eq_false_iff, Option.isNone_iff_eq_none]
          using hrest c (by simp)
      simp only [List.map_nil, List.nil_append, takeDigits, hc]
  | cons d ds ih =>
    obtain ⟨hd, hds⟩ := List.forall_mem_cons.1 hds
    have hdigit : (digitValue d.digitChar).filter (· < 10) = some d := by
      rw [digitValue_digitChar hd, Option.filter_some, if_pos (by simpa using hd)]
    rw [List.map_cons, List.cons_append, takeDigits, hdigit, ih hds]

theorem decimalDigits_spec (n : Nat) : decimalDigits n ≠ [] ∧ (∀ d ∈ decimalDigits n, d < 10) ∧
    Nat.ofDigits 10 (decimalDigits n).reverse = n := by
  unfold decimalDigits
  split
  · next h =>
    subst h
    decide
  · next h =>
    refine ⟨by simpa [Nat.digits_eq_nil_iff_eq_zero] using h, ?_, ?_⟩
    · intro d hd
      exact Nat.digits_lt_base (by omega) (List.mem_reverse.1 hd)
    · rw [List.reverse_reverse, Nat.ofDigits_digits]

theorem lastDigits_spec (places n : Nat) : (lastDigits places n).length = places ∧
    (∀ d ∈ lastDigits places n, d < 10) ∧
    Nat.ofDigits 10 (lastDigits places n).reverse = n % 10 ^ places := by
  induction places generalizing n with
  | zero => simp [lastDigits, Nat.mod_one]
  | succ places ih =>
    obtain ⟨hlength, hlt, hvalue⟩ := ih (n / 10)
    refine ⟨by simp [lastDigits, hlength], ?_, ?_⟩
    · intro d hd
      rcases List.mem_append.1 hd with hd | hd
      · exact hlt d hd
      · rw [List.mem_singleton.1 hd]
        exact Nat.mod_lt n (by omega)
    · rw [lastDigits, List.reverse_append, List.reverse_singleton, List.singleton_append,
        Nat.ofDigits_cons, hvalue, pow_succ', Nat.mod_mul]

theorem roundHalfEven_intCast (n : Int) : roundHalfEven n = n := by
  unfold roundHalfEven
  simp

/-- Rounding to the nearest integer stays below an even number up to and including the half above. -/
theorem roundHalfEven_le_even_iff {q : ℚ} {n : Int} (hn : n % 2 = 0) :
    roundHalfEven q ≤ n ↔ q ≤ n + 1 / 2 := by
  have hle := Int.floor_le q
  have hlt := Int.lt_floor_add_one q
  unfold roundHalfEven
  generalize ⌊q⌋ = below at hle hlt ⊢
  dsimp only
  rcases lt_trichotomy below n with h | rfl | h
  · -- below the even number both hold
    have hcast : (below : ℚ) + 1 ≤ n := by exact_mod_cast h
    refine iff_of_true ?_ (by linarith)
    split_ifs <;> omega
  · split_ifs with hdown hup
    · exact iff_of_true le_rfl (by linarith)
    · exact iff_of_false (by omega) (by linarith)
    · exact iff_of_true le_rfl (by linarith)
  · have hcast : (n : ℚ) + 1 ≤ below := by exact_mod_cast h
    refine iff_of_false ?_ (by linarith)
    split_ifs <;> omega

/-- Behind the first digits of a written number stands no `x`, so it is no hexadecimal one. -/
theorem takeHex_digitChar {ds : List Nat} (hds : ∀ d ∈ ds, d < 10) (hne : ds ≠ [])
    {rest : List Char} (hrest : ∀ c ∈ rest.head?, c.toLower ≠ 'x') :
    takeHex (ds.map Nat.digitChar ++ rest) = none := by
  have hdigit : ∀ d : Nat, d < 10 → d.digitChar.toLower ≠ 'x' := by decide
  unfold takeHex
  split
  · next x s heq =>
    refine if_neg ?_
    match ds, hds with
    | [_], _ =>
      obtain ⟨-, rfl⟩ : _ ∧ rest = x :: s := by simpa using heq
      exact hrest x (by simp)
    | _ :: d :: _, hds =>
      obtain ⟨-, rfl, -⟩ : _ ∧ d.digitChar = x ∧ _ := by simpa using heq
      exact hdigit d (hds d (by simp))
  · rfl

/-- The digits behind the point of a written number; without any, the point may be left out. -/
inductive PointText : List Nat → List Char → Prop
  | absent : PointText [] []
  | written (fraction : List Nat) : PointText fraction ('.' :: fraction.map Nat.digitChar)

/-- What `%e` writes behind the mantissa: the sign and at least two digits. -/
def exponentText (exponent : Int) : List Char :=
  'e' :: (if exponent < 0 then '-' else '+') ::
    ((if exponent.natAbs < 10 then ['0'] else []) ++
      (decimalDigits exponent.natAbs).map Nat.digitChar)

/-- The exponent of a written number; zero may be left out. -/
inductive ExponentText : Int → List Char → Prop
  | absent : ExponentText 0 []
  | written (exponent : Int) : ExponentText exponent (exponentText exponent)

theorem ExponentText.head {e : Int} {suffix : List Char} (h : ExponentText e suffix) :
    ∀ c ∈ suffix.head?, c = 'e' := by
  cases h with
  | absent => simp
  | written => simp [exponentText]

theorem takeInt_digitChar (negative : Bool) {ds : List Nat} (hds : ∀ d ∈ ds, d < 10)
    (hne : ds ≠ []) :
    takeInt ((if negative then '-' else '+') :: ds.map Nat.digitChar) =
      some (withSign negative ((Nat.ofDigits 10 ds.reverse : Nat) : Int)) := by
  have hread : takeDigits 10 (ds.map Nat.digitChar) = (ds, []) := by
    simpa using takeDigits_digitChar hds (by simp : ∀ c ∈ [].head?, ¬ IsDigit c)
  cases negative <;> simp [takeInt, takeSign, hread, hne, withSign, Nat.coe_ofDigits]

theorem ExponentText.read {e : Int} {suffix : List Char} (h : ExponentText e suffix) :
    takeExponent 'e' suffix = e := by
  cases h with
  | absent => rfl
  | written =>
    obtain ⟨hne, hdigits, hvalue⟩ := decimalDigits_spec e.natAbs
    -- the padding zero is a digit like the others
    obtain ⟨ds, hds, hlt, htext, hread⟩ : ∃ ds : List Nat, ds ≠ [] ∧ (∀ d ∈ ds, d < 10) ∧
        (if e.natAbs < 10 then ['0'] else []) ++ (decimalDigits e.natAbs).map Nat.digitChar =
          ds.map Nat.digitChar ∧ Nat.ofDigits 10 ds.reverse = e.natAbs := by
      split
      · refine ⟨0 :: decimalDigits e.natAbs, by simp, by simpa using hdigits, rfl, ?_⟩
        rw [List.reverse_cons, Nat.ofDigits_append, hvalue]
        simp
      · exact ⟨decimalDigits e.natAbs, hne, hdigits, rfl, hvalue⟩
    have hsign : (if e < 0 then '-' else '+') = if decide (e < 0) then '-' else '+' := by simp
    unfold exponentText
    rw [htext, hsign, takeExponent, if_pos (by decide : Char.toLower 'e' = 'e'),
      takeInt_digitChar _ hlt hds, hread, Option.getD_some, withSign]
    by_cases hneg : e < 0
    · rw [if_pos (by simpa using hneg)]
      omega
    · rw [if_neg (by simpa using hneg)]
      omega

/-- Digits, a point among them or not, are read as a number over a power of ten. -/
theorem takeMantissa_digitChar {whole fraction : List Nat} {point rest : List Char}
    (hne : whole ≠ []) (hwhole : ∀ d ∈ whole, d < 10) (hfraction : ∀ d ∈ fraction, d < 10)
    (hpoint : PointText fraction point) (hrest : ∀ c ∈ rest.head?, c = 'e') :
    takeMantissa 10 (whole.map Nat.digitChar ++ (point ++ rest)) =
      some (((Nat.ofDigits 10 (whole ++ fraction).reverse : Nat) : ℚ) / 10 ^ fraction.length,
        rest) := by
  have hdigits : ∀ c ∈ rest.head?, ¬ IsDigit c := by
    intro c hc
    rw [hrest c hc]
    decide
  unfold takeMantissa
  cases hpoint with
  | absent =>
    rw [List.nil_append, takeDigits_digitChar hwhole hdigits]
    cases rest with
    | nil => simp [hne]
    | cons c rest =>
      obtain rfl : c = 'e' := hrest c (by simp)
      simp [hne]
  | written =>
    rw [List.cons_append, takeDigits_digitChar hwhole (by simp; decide)]
    simp only [takeDigits_digitChar hfraction hdigits, hne, false_and, if_false]
    norm_num

/-- In front of a digit there is no space to skip and no sign to take off. -/
theorem takeSign_digitChar {d : Nat} (hd : d < 10) (rest : List Char) :
    takeSign ((d.digitChar :: rest).dropWhile isWhite) = (false, d.digitChar :: rest) := by
  have hfront : ∀ d : Nat, d < 10 →
      isWhite d.digitChar = false ∧ d.digitChar ≠ '-' ∧ d.digitChar ≠ '+' := by decide
  obtain ⟨hwhite, hminus, hplus⟩ := hfront d hd
  rw [List.dropWhile_cons_of_neg (by simp [hwhite])]
  simp [takeSign, hminus, hplus]

/-- The sign in front of a text of digits is taken off it. -/
theorem strtod_sign {d : Nat} (hd : d < 10) (rest : List Char) (negative : Bool) {q : ℚ}
    (hhex : takeHex (d.digitChar :: rest) = none)
    (hdecimal : takeDecimal (d.digitChar :: rest) = some q) :
    strtod ((if negative then ['-'] else []) ++ d.digitChar :: rest) = some (withSign negative q) := by
  have hsign : takeSign (((if negative then ['-'] else []) ++ d.digitChar :: rest).dropWhile isWhite) =
      (negative, d.digitChar :: rest) := by
    cases negative with
    | true => rfl
    | false => exact takeSign_digitChar hd rest
  unfold strtod
  rw [hsign]
  dsimp only
  rw [hhex, hdecimal]
  rfl

/-- A number is its absolute value with its sign. -/
theorem withSign_abs (q : ℚ) : withSign (decide (q < 0)) |q| = q := by
  unfold withSign
  by_cases hneg : q < 0
  · simp [hneg, abs_of_neg hneg]
  · simp [hneg, abs_of_nonneg (not_lt.1 hneg)]

/-- **Numerals are read as written.** Sign, digits, a point among them or not, an exponent or none. -/
theorem strtod_numeral (negative : Bool) {whole fraction : List Nat} {point suffix : List Char}
    {e : Int} (hne : whole ≠ []) (hwhole : ∀ d ∈ whole, d < 10) (hfraction : ∀ d ∈ fraction, d < 10)
    (hpoint : PointText fraction point) (hsuffix : ExponentText e suffix) :
    strtod ((if negative then ['-'] else []) ++ (whole.map Nat.digitChar ++ (point ++ suffix))) =
      some (withSign negative
        (((Nat.ofDigits 10 (whole ++ fraction).reverse : Nat) : ℚ) / 10 ^ fraction.length *
          10 ^ e)) := by
  have hx : ∀ c ∈ (point ++ suffix).head?, c.toLower ≠ 'x' := by
    intro c hc
    have hfront : c = '.' ∨ c = 'e' := by
      cases hpoint with
      | written => exact Or.inl (by simpa [eq_comm] using hc)
      | absent => exact Or.inr (hsuffix.head c hc)
    rcases hfront with rfl | rfl <;> decide
  have hhex := takeHex_digitChar hwhole hne hx
  have hmantissa := takeMantissa_digitChar hne hwhole hfraction hpoint hsuffix.head
  have hdecimal : takeDecimal (whole.map Nat.digitChar ++ (point ++ suffix)) =
      some (((Nat.ofDigits 10 (whole ++ fraction).reverse : Nat) : ℚ) / 10 ^ fraction.length *
        10 ^ e) := by
    rw [takeDecimal, hmantissa, Option.map_some]
    simp only [hsuffix.read]
  obtain ⟨d, ds, rfl⟩ := List.exists_cons_of_ne_nil hne
  exact strtod_sign (hwhole d (by simp)) _ negative hhex hdecimal

/-- A number with no more decimals than are written is read back. -/
theorem strtod_toFixed {places : Nat} {q : ℚ} {n : Int} (h : q * 10 ^ places = n) :
    strtod (toFixed places q) = some q := by
  have hpow : (0 : ℚ) < 10 ^ places := by positivity
  have habs : |q| * 10 ^ places = ((|n| : Int) : ℚ) := by
    rw [Int.cast_abs, ← h, abs_mul, abs_of_pos hpow]
  have hscaled : (roundHalfEven (|q| * 10 ^ places)).toNat = n.natAbs := by
    rw [habs, roundHalfEven_intCast, Int.abs_eq_natAbs, Int.toNat_natCast]
  obtain ⟨hne, hwhole, hwholeValue⟩ := decimalDigits_spec (n.natAbs / 10 ^ places)
  obtain ⟨hlength, hfraction, hfractionValue⟩ := lastDigits_spec places n.natAbs
  have hvalue : Nat.ofDigits 10
      (decimalDigits (n.natAbs / 10 ^ places) ++ lastDigits places n.natAbs).reverse = n.natAbs := by
    rw [List.reverse_append, Nat.ofDigits_append, hwholeValue, hfractionValue, List.length_reverse,
      hlength, Nat.mod_add_div]
  have hq : (n.natAbs : ℚ) / 10 ^ places = |q| := by
    rw [Nat.cast_natAbs, ← habs, mul_div_cancel_right₀ _ hpow.ne']
  have hread := strtod_numeral (decide (q < 0)) hne hwhole hfraction (.written _) .absent
  rw [hvalue, hlength, zpow_zero, mul_one, hq, withSign_abs] at hread
  unfold toFixed
  dsimp only
  rw [hscaled]
  simpa only [decide_eq_true_eq, List.append_nil] using hread

/-- A number that is not negative is read back as printed: rounded to the decimals. -/
theorem strtod_toFixed_rounded (places : Nat) {q : ℚ} (hq : 0 ≤ q) :
    strtod (toFixed places q) = some ((roundHalfEven (q * 10 ^ places) : ℚ) / 10 ^ places) := by
  have hpow : (0 : ℚ) < 10 ^ places := by positivity
  have hround : 0 ≤ roundHalfEven (q * 10 ^ places) := by
    have hfloor : 0 ≤ ⌊q * 10 ^ places⌋ := Int.floor_nonneg.2 (by positivity)
    unfold roundHalfEven
    dsimp only
    split_ifs <;> omega
  generalize hn : roundHalfEven (q * 10 ^ places) = n at hround
  have hrounded : (0 : ℚ) ≤ n / 10 ^ places := div_nonneg (by exact_mod_cast hround) hpow.le
  have hexact : (n / 10 ^ places : ℚ) * 10 ^ places = n := div_mul_cancel₀ _ hpow.ne'
  have hsame : toFixed places q = toFixed places (n / 10 ^ places) := by
    unfold toFixed
    rw [abs_of_nonneg hq, abs_of_nonneg hrounded, hexact, hn, roundHalfEven_intCast,
      if_neg hq.not_gt, if_neg hrounded.not_gt]
  rw [hsame]
  exact strtod_toFixed hexact

/-! ## Integers -/

/-- The integer part with its sign, what a `static_cast` to an integer type leaves of a `double`. -/
def truncate (q : ℚ) : Int := q.num.tdiv q.den

/-- `std::to_string` of an integer. -/
def ofInt (n : Int) : List Char :=
  (if n < 0 then ['-'] else []) ++ (decimalDigits n.natAbs).map Nat.digitChar

theorem strtod_ofInt (n : Int) : strtod (ofInt n) = some (n : ℚ) := by
  obtain ⟨hne, hdigits, hvalue⟩ := decimalDigits_spec n.natAbs
  have hread := strtod_numeral (decide (n < 0)) hne hdigits (by simp : ∀ d ∈ [], d < 10) .absent .absent
  rw [List.append_nil, List.append_nil, List.append_nil, hvalue] at hread
  have habs : (n.natAbs : ℚ) = |(n : ℚ)| := by rw [Nat.cast_natAbs, Int.cast_abs]
  have hneg : decide (n < 0) = decide ((n : ℚ) < 0) := by simp
  rw [habs, hneg, List.length_nil, pow_zero, div_one, zpow_zero, mul_one, withSign_abs] at hread
  simpa [ofInt] using hread

/-- What a stream writes of an unsigned integer. -/
def ofNat (n : Nat) : List Char := (decimalDigits n).map Nat.digitChar

/-- A number is read up to what is no digit. -/
theorem stoull_ofNat_append (n : UInt64) {rest : List Char} (hrest : ∀ c ∈ rest.head?, ¬ IsDigit c) :
    stoull (ofNat n.toNat ++ rest) = some n := by
  obtain ⟨hne, hdigits, hvalue⟩ := decimalDigits_spec n.toNat
  have hsign : takeSign ((ofNat n.toNat ++ rest).dropWhile isWhite) =
      (false, ofNat n.toNat ++ rest) := by
    unfold ofNat
    obtain ⟨d, ds, hds⟩ := List.exists_cons_of_ne_nil hne
    rw [hds]
    exact takeSign_digitChar (hdigits d (by simp [hds])) _
  have hread : takeDigits 10 (ofNat n.toNat ++ rest) = (decimalDigits n.toNat, rest) :=
    takeDigits_digitChar hdigits hrest
  have hlt := n.toNat_lt
  unfold stoull
  rw [hsign]
  dsimp only
  rw [hread]
  dsimp only
  rw [hvalue, if_neg (by simp only [hne, false_or]; omega), UInt64.ofNat_toNat]
  rfl

theorem stoull_ofNat (n : UInt64) : stoull (ofNat n.toNat) = some n := by
  have hread := stoull_ofNat_append n (by simp : ∀ c ∈ [].head?, ¬ IsDigit c)
  rwa [List.append_nil] at hread

/-! ## Letters of numerals -/

/-- The letters that numerals are written with. -/
def IsNumeralChar (c : Char) : Prop := IsDigit c ∨ c = '-' ∨ c = '+' ∨ c = '.' ∨ c = 'e'

instance (c : Char) : Decidable (IsNumeralChar c) := inferInstanceAs (Decidable (_ ∨ _))

theorem isNumeralChar_digitChar {ds : List Nat} (hds : ∀ d ∈ ds, d < 10) :
    ∀ c ∈ ds.map Nat.digitChar, IsNumeralChar c := by
  have hdigit : ∀ d : Nat, d < 10 → IsNumeralChar d.digitChar := by decide
  intro c hc
  obtain ⟨d, hd, rfl⟩ := List.mem_map.1 hc
  exact hdigit d (hds d hd)

theorem isNumeralChar_ofNat (n : Nat) : ∀ c ∈ ofNat n, IsNumeralChar c :=
  isNumeralChar_digitChar (decimalDigits_spec n).2.1

theorem isNumeralChar_exponentText (e : Int) : ∀ c ∈ exponentText e, IsNumeralChar c := by
  have hdigits := isNumeralChar_digitChar (decimalDigits_spec e.natAbs).2.1
  intro c hc
  rcases List.mem_cons.1 hc with rfl | hc
  · decide
  rcases List.mem_cons.1 hc with rfl | hc
  · split <;> decide
  rcases List.mem_append.1 hc with hc | hc
  · split at hc
    · rw [List.mem_singleton.1 hc]
      decide
    · cases hc
  · exact hdigits c hc

end TradingTerminal.Lib
