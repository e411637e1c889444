import TradingTerminal.Lib.Numeral
import Mathlib.Algebra.Order.Field.Power
import Mathlib.Data.Int.Log
import Mathlib.Data.List.DropRight

/-!
# Numbers with few digits

`toGeneral` is the `%g` of `printf`: a number is rounded to a count of significant digits, the zeros
behind the point are left out, and large and small numbers get an exponent. `strtod_toGeneral` says
what is read back, so that exactly the numbers with no more significant digits survive
(`strtod_toGeneral_iff`). Precisions count the digits behind the first one.
-/

namespace TradingTerminal.Lib

/-- A multiple of a power of ten by an integer of at most `places + 1` digits. -/
def FewDigits (places : Nat) (q : ℚ) : Prop :=
  ∃ (m : Int) (e : Int), |m| < 10 ^ (places + 1) ∧ q = m * 10 ^ e

/-- The exponent that `%e` writes. A number whose digits are all rounded up has the next one. -/
def exponentOf (places : Nat) (q : ℚ) : Int :=
  let x := Int.log 10 |q|
  if roundHalfEven (|q| * 10 ^ (places - x)) = 10 ^ (places + 1) then x + 1 else x

/-- The significant digits of a number, as one integer. -/
def mantissaOf (places : Nat) (q : ℚ) : Nat :=
  (roundHalfEven (|q| * 10 ^ (places - exponentOf places q))).toNat

/-- `n / 10 ^ places` without the zeros at its end, and without the point if no decimal is left. -/
def shortDecimal (places n : Nat) : List Char :=
  let fraction := (lastDigits places n).rdropWhile (· = 0)
  (decimalDigits (n / 10 ^ places)).map Nat.digitChar ++
    if fraction = [] then [] else '.' :: fraction.map Nat.digitChar

/-- The `%g` of `printf` with `places + 1` significant digits. -/
def toGeneral (places : Nat) (q : ℚ) : List Char :=
  let x := exponentOf places q
  (if q < 0 then ['-'] else []) ++
    if -4 ≤ x ∧ x ≤ places then shortDecimal (places - x).toNat (mantissaOf places q)
    else shortDecimal places (mantissaOf places q) ++ exponentText x

/-- The number that `toGeneral` writes. -/
def rounded (places : Nat) (q : ℚ) : ℚ :=
  withSign (decide (q < 0)) (mantissaOf places q * 10 ^ (exponentOf places q - places))

/-! ## Reading back -/

/-- The zeros at the end of the decimals do not count. -/
theorem ofDigits_rdropWhile (whole fraction : List Nat) :
    ((Nat.ofDigits 10 (whole ++ fraction.rdropWhile (· = 0)).reverse : Nat) : ℚ) /
        10 ^ (fraction.rdropWhile (· = 0)).length =
      ((Nat.ofDigits 10 (whole ++ fraction).reverse : Nat) : ℚ) / 10 ^ fraction.length := by
  induction fraction using List.reverseRecOn with
  | nil => rfl
  | append_singleton fraction d ih =>
    by_cases hd : d = 0
    · subst hd
      have hreverse : (whole ++ (fraction ++ [0])).reverse = 0 :: (whole ++ fraction).reverse := by
        simp
      rw [List.rdropWhile_concat_pos _ _ _ (by simp), ih, hreverse, Nat.ofDigits_cons,
        List.length_append, List.length_singleton, pow_succ']
      push_cast
      rw [zero_add]
      exact (mul_div_mul_left _ _ (by norm_num)).symm
    · rw [List.rdropWhile_concat_neg _ _ _ (by simpa using hd)]

theorem lastDigits_rdropWhile_lt (places n : Nat) :
    ∀ d ∈ (lastDigits places n).rdropWhile (· = 0), d < 10 := by
  intro d hd
  exact (lastDigits_spec places n).2.1 d ((List.rdropWhile_prefix _ _).mem hd)

theorem strtod_shortDecimal (negative : Bool) (places n : Nat) {suffix : List Char} {e : Int}
    (hsuffix : ExponentText e suffix) :
    strtod ((if negative then ['-'] else []) ++ (shortDecimal places n ++ suffix)) =
      some (withSign negative ((n : ℚ) / 10 ^ places * 10 ^ e)) := by
  obtain ⟨hne, hwhole, hwholeValue⟩ := decimalDigits_spec (n / 10 ^ places)
  obtain ⟨hlength, -, hlastValue⟩ := lastDigits_spec places n
  have hvalue : Nat.ofDigits 10 (decimalDigits (n / 10 ^ places) ++ lastDigits places n).reverse =
      n := by
    rw [List.reverse_append, Nat.ofDigits_append, hwholeValue, hlastValue, List.length_reverse,
      hlength, Nat.mod_add_div]
  have hzeros := ofDigits_rdropWhile (decimalDigits (n / 10 ^ places)) (lastDigits places n)
  rw [hvalue, hlength] at hzeros
  have hpoint : PointText ((lastDigits places n).rdropWhile (· = 0))
      (if (lastDigits places n).rdropWhile (· = 0) = [] then []
        else '.' :: ((lastDigits places n).rdropWhile (· = 0)).map Nat.digitChar) := by
    split
    · next h =>
      rw [h]
      exact .absent
    · exact .written _
  have hread := strtod_numeral negative hne hwhole (lastDigits_rdropWhile_lt places n) hpoint
    hsuffix
  rw [hzeros] at hread
  unfold shortDecimal
  rw [List.append_assoc]
  exact hread

/-- What is read back is the rounded number. -/
theorem strtod_toGeneral (places : Nat) (q : ℚ) :
    strtod (toGeneral places q) = some (rounded places q) := by
  unfold toGeneral rounded
  dsimp only
  generalize exponentOf places q = x
  generalize mantissaOf places q = n
  have h10 : (10 : ℚ) ≠ 0 := by norm_num
  by_cases h : -4 ≤ x ∧ x ≤ places
  · rw [if_pos h]
    have hread := strtod_shortDecimal (decide (q < 0)) (places - x).toNat n .absent
    have hpow : (n : ℚ) / 10 ^ (places - x).toNat = n * 10 ^ (x - places) := by
      rw [div_eq_mul_inv, ← zpow_natCast, ← zpow_neg, Int.toNat_of_nonneg (by omega), neg_sub]
    rw [zpow_zero, mul_one, hpow, List.append_nil] at hread
    simpa only [decide_eq_true_eq] using hread
  · rw [if_neg h]
    have hread := strtod_shortDecimal (decide (q < 0)) places n (.written x)
    have hpow : (n : ℚ) / 10 ^ places * 10 ^ x = n * 10 ^ (x - places) := by
      rw [zpow_sub₀ h10, zpow_natCast]
      ring
    rw [hpow] at hread
    simpa only [decide_eq_true_eq] using hread

theorem isNumeralChar_shortDecimal (places n : Nat) :
    ∀ c ∈ shortDecimal places n, IsNumeralChar c := by
  have hwhole := isNumeralChar_digitChar (decimalDigits_spec (n / 10 ^ places)).2.1
  intro c hc
  rcases List.mem_append.1 hc with hc | hc
  · exact hwhole c hc
  · split at hc
    · cases hc
    · rcases List.mem_cons.1 hc with rfl | hc
      · decide
      · exact isNumeralChar_digitChar (lastDigits_rdropWhile_lt places n) c hc

theorem isNumeralChar_toGeneral (places : Nat) (q : ℚ) :
    ∀ c ∈ toGeneral places q, IsNumeralChar c := by
  intro c hc
  rcases List.mem_append.1 hc with hc | hc
  · split at hc
    · rw [List.mem_singleton.1 hc]
      decide
    · cases hc
  · split at hc
    · exact isNumeralChar_shortDecimal _ _ c hc
    · rcases List.mem_append.1 hc with hc | hc
      · exact isNumeralChar_shortDecimal _ _ c hc
      · exact isNumeralChar_exponentText _ c hc

/-! ## The rounded number -/

theorem roundHalfEven_le {q : ℚ} {n : Int} (h : q ≤ n) : roundHalfEven q ≤ n := by
  have hfloor : ⌊q⌋ ≤ n := by
    have := Int.floor_le q
    exact_mod_cast this.trans h
  by_cases heq : ⌊q⌋ = n
  · -- then the number is the integer itself
    have hq : q = n := le_antisymm h (heq ▸ Int.floor_le q)
    rw [hq, roundHalfEven_intCast]
  · unfold roundHalfEven
    dsimp only
    split_ifs <;> omega

/-- A number is below the next power of ten of its exponent. -/
theorem abs_lt_exponentOf (places : Nat) (q : ℚ) : |q| < 10 ^ (exponentOf places q + 1) := by
  have hlog := Int.lt_zpow_succ_log_self (by decide : 1 < 10) |q|
  push_cast at hlog
  unfold exponentOf
  dsimp only
  split
  · exact hlog.trans_le (zpow_le_zpow_right₀ (by norm_num) (by omega))
  · exact hlog

theorem zpow_succ_mul_zpow (places : Nat) (x : Int) :
    (10 : ℚ) ^ (x + 1) * 10 ^ (places - x) = ((10 ^ (places + 1) : Int) : ℚ) := by
  rw [← zpow_add₀ (by norm_num)]
  push_cast
  rw [← zpow_natCast]
  congr 1
  push_cast
  ring

theorem mantissaOf_le (places : Nat) (q : ℚ) : mantissaOf places q ≤ 10 ^ (places + 1) := by
  unfold mantissaOf
  generalize hx : exponentOf places q = x
  have hlt := abs_lt_exponentOf places q
  rw [hx] at hlt
  have hunit : (0 : ℚ) < 10 ^ (places - x) := by positivity
  have hle := roundHalfEven_le
    ((mul_le_mul_of_nonneg_right hlt.le hunit.le).trans_eq (zpow_succ_mul_zpow places x))
  rw [Int.toNat_le]
  exact_mod_cast hle

theorem fewDigits_rounded (places : Nat) (q : ℚ) : FewDigits places (rounded places q) := by
  have hsign : ∀ {r : ℚ}, FewDigits places r → FewDigits places (withSign (decide (q < 0)) r) := by
    rintro r ⟨m, e, hm, rfl⟩
    unfold withSign
    split
    · refine ⟨-m, e, by rwa [abs_neg], ?_⟩
      push_cast
      ring
    · exact ⟨m, e, hm, rfl⟩
  apply hsign
  by_cases hfull : mantissaOf places q = 10 ^ (places + 1)
  · -- all digits were rounded up, a single one is left
    refine ⟨1, exponentOf places q + 1, ?_, ?_⟩
    · rw [abs_one]
      exact one_lt_pow₀ (by norm_num) (by omega)
    · rw [hfull]
      push_cast
      rw [one_mul, ← zpow_natCast, ← zpow_add₀ (by norm_num)]
      congr 1
      push_cast
      ring
  · refine ⟨mantissaOf places q, exponentOf places q - places, ?_, by push_cast; rfl⟩
    have hlt := lt_of_le_of_ne (mantissaOf_le places q) hfull
    rw [Nat.abs_cast]
    exact_mod_cast hlt

/-- With few digits, and its first one at `x`, a number has its last digit at `x - places` or above. -/
theorem sub_places_le {places : Nat} {m x e : Int} (hm : |m| < 10 ^ (places + 1))
    (hlow : (10 : ℚ) ^ x ≤ |m| * 10 ^ e) : x - places ≤ e := by
  by_contra hlt
  have hdigits : ((|m| : Int) : ℚ) * 10 ^ e < 10 ^ ((places + 1 : Nat) + e) := by
    rw [zpow_add₀ (by norm_num), zpow_natCast]
    exact mul_lt_mul_of_pos_right (by exact_mod_cast hm) (by positivity)
  have hpow : (10 : ℚ) ^ ((places + 1 : Nat) + e) ≤ 10 ^ x := by
    apply zpow_le_zpow_right₀ (by norm_num)
    omega
  exact absurd (hdigits.trans_le hpow) hlow.not_gt

/-- A number with few digits is an integer in the unit of its last digit. -/
theorem FewDigits.integer {places : Nat} {q : ℚ} (h : FewDigits places q) :
    ∃ n : Int, |q| * 10 ^ (places - Int.log 10 |q|) = n ∧ n < 10 ^ (places + 1) := by
  obtain ⟨m, e, hm, hq⟩ := h
  have h10 : (10 : ℚ) ≠ 0 := by norm_num
  generalize hx : Int.log 10 |q| = x
  have habs : |q| = |m| * 10 ^ e := by
    rw [hq, abs_mul, abs_zpow]
    norm_num
  by_cases hzero : q = 0
  · exact ⟨0, by simp [hzero], by positivity⟩
  · have hlow : (10 : ℚ) ^ x ≤ |q| := by
      rw [← hx]
      exact_mod_cast Int.zpow_log_le_self (by decide) (abs_pos.2 hzero)
    have hhigh : |q| < (10 : ℚ) ^ (x + 1) := by
      rw [← hx]
      exact_mod_cast Int.lt_zpow_succ_log_self (by decide) |q|
    have hunit : x - places ≤ e := sub_places_le hm (habs ▸ hlow)
    have hinteger : |q| * 10 ^ (places - x) = ((|m| * 10 ^ (e - (x - places)).toNat : Int) : ℚ) := by
      rw [habs, mul_assoc, ← zpow_add₀ h10]
      push_cast
      rw [← zpow_natCast, Int.toNat_of_nonneg (by omega)]
      congr 2
      ring
    refine ⟨_, hinteger, ?_⟩
    have hbound : |q| * 10 ^ (places - x) < ((10 ^ (places + 1) : Int) : ℚ) := by
      rw [← zpow_succ_mul_zpow]
      exact mul_lt_mul_of_pos_right hhigh (by positivity)
    rw [hinteger] at hbound
    exact_mod_cast hbound

theorem FewDigits.rounded {places : Nat} {q : ℚ} (h : FewDigits places q) : rounded places q = q := by
  obtain ⟨n, hn, hlt⟩ := h.integer
  have hround : roundHalfEven (|q| * 10 ^ (places - Int.log 10 |q|)) = n := by
    rw [hn, roundHalfEven_intCast]
  have hexponent : exponentOf places q = Int.log 10 |q| := by
    unfold exponentOf
    dsimp only
    rw [hround, if_neg hlt.ne]
  have hnonneg : 0 ≤ n := by
    have hcast : (0 : ℚ) ≤ n := by
      rw [← hn]
      positivity
    exact_mod_cast hcast
  have hmantissa : (mantissaOf places q : ℚ) = |q| * 10 ^ (places - Int.log 10 |q|) := by
    unfold mantissaOf
    rw [hexponent, hround, hn]
    exact_mod_cast Int.toNat_of_nonneg hnonneg
  unfold Lib.rounded
  rw [hmantissa, hexponent, mul_assoc, ← zpow_add₀ (by norm_num), sub_add_sub_cancel', sub_self,
    zpow_zero, mul_one, withSign_abs]

theorem rounded_eq_self_iff {places : Nat} {q : ℚ} : rounded places q = q ↔ FewDigits places q := by
  constructor
  · intro h
    rw [← h]
    exact fewDigits_rounded places q
  · exact FewDigits.rounded

instance (places : Nat) (q : ℚ) : Decidable (FewDigits places q) :=
  decidable_of_iff _ rounded_eq_self_iff

/-- **Digits kept.** A number is read back exactly if it has no more digits than are written. -/
theorem strtod_toGeneral_iff {places : Nat} {q : ℚ} :
    strtod (toGeneral places q) = some q ↔ FewDigits places q := by
  rw [strtod_toGeneral, Option.some_inj, rounded_eq_self_iff]

end TradingTerminal.Lib
