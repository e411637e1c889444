import TradingTerminal.Lib.Bytes

/-!
# Base 64

The base 64 of RFC 4648 with padding. Three bytes are one number of 24 bits, written as four digits
of six bits; of one or two bytes at the end the number is filled up with zero bits to two or three
digits, and the text with pad characters to four. `decode` accepts no other character, pad
characters at the end only, and no fill bits but zeros.

`Encodes` is what an encoder has to do, and `encode` does it (`encodes_encode`).
-/

namespace TradingTerminal.Lib.Base64

/-- The character of a value below 64. -/
def symbol (v : Nat) : UInt8 :=
  if v < 26 then UInt8.ofNat (v + 65)
  else if v < 52 then UInt8.ofNat (v - 26 + 97)
  else if v < 62 then UInt8.ofNat (v - 52 + 48)
  else if v = 62 then 43
  else 47

/-- The value of a character of the alphabet. -/
def valueOf (c : UInt8) : Option Nat :=
  if 65 ≤ c ∧ c ≤ 90 then some (c.toNat - 65)
  else if 97 ≤ c ∧ c ≤ 122 then some (c.toNat - 97 + 26)
  else if 48 ≤ c ∧ c ≤ 57 then some (c.toNat - 48 + 52)
  else if c = 43 then some 62
  else if c = 47 then some 63
  else none

/-- The character `=`. -/
def pad : UInt8 := 61

/-- The number with the given digits of six bits. -/
def ofSextets (vs : List Nat) : Nat := vs.foldl (fun n v => n * 64 + v) 0

/-- The lowest `w` digits of six bits of a number. -/
def sextets : Nat → Nat → List Nat
  | 0, _ => []
  | w + 1, n => sextets w (n / 64) ++ [n % 64]

/-- What remains of the last digit when `k` bytes are written with `k + 1` digits. -/
def spare (k : Nat) : Nat := 2 ^ (6 - 2 * k)

/-- Up to three bytes, with one more character than bytes. -/
def encodeGroup (bytes : List UInt8) : List UInt8 :=
  (sextets (bytes.length + 1) (ofBE bytes * spare bytes.length)).map symbol

def encode : List UInt8 → List UInt8
  | a :: b :: c :: rest => encodeGroup [a, b, c] ++ encode rest
  | [a, b] => encodeGroup [a, b] ++ [pad]
  | [a] => encodeGroup [a] ++ [pad, pad]
  | [] => []

/-- The bytes of a group of characters, one fewer than these. -/
def decodeGroup (text : List UInt8) : Option (List UInt8) := do
  let n := ofSextets (← text.mapM valueOf)
  let k := text.length - 1
  if n % spare k = 0 then return toBE k (n / spare k) else none

def decode : List UInt8 → Option (List UInt8)
  | w :: x :: y :: z :: rest =>
    if rest = [] ∧ z = pad then decodeGroup (if y = pad then [w, x] else [w, x, y])
    else do return (← decodeGroup [w, x, y, z]) ++ (← decode rest)
  | [] => some []
  | _ => none

/-- The padded text of some bytes: four characters for every three bytes begun, characters of the
alphabet before as many pad characters as bytes are missing, and the bytes when it is decoded. -/
structure Encodes (bytes text : List UInt8) : Prop where
  length : text.length = 4 * ((bytes.length + 2) / 3)
  padded : ∃ body, text = body ++ List.replicate ((3 - bytes.length % 3) % 3) pad ∧
    ∀ c ∈ body, (valueOf c).isSome = true
  decode : decode text = some bytes

/-! ## Characters and digits -/

theorem valueOf_symbol : ∀ v < 64, valueOf (symbol v) = some v := by decide

theorem symbol_ne_pad {v : Nat} (h : v < 64) : symbol v ≠ pad := by
  intro hpad
  have hvalue := valueOf_symbol v h
  rw [hpad] at hvalue
  cases hvalue

theorem mapM_valueOf_symbol {vs : List Nat} (h : ∀ v ∈ vs, v < 64) :
    (vs.map symbol).mapM valueOf = some vs := by
  induction vs with
  | nil => rfl
  | cons v vs ih =>
    obtain ⟨hv, hvs⟩ := List.forall_mem_cons.1 h
    rw [List.map_cons, List.mapM_cons, valueOf_symbol v hv, ih hvs]
    rfl

@[simp] theorem length_sextets (w n : Nat) : (sextets w n).length = w := by
  induction w generalizing n with
  | zero => rfl
  | succ w ih => rw [sextets, List.length_append, ih, List.length_singleton]

theorem lt_of_mem_sextets {w n v : Nat} (h : v ∈ sextets w n) : v < 64 := by
  induction w generalizing n with
  | zero => cases h
  | succ w ih =>
    rcases List.mem_append.1 h with h | h
    · exact ih h
    · rw [List.mem_singleton.1 h]
      exact Nat.mod_lt n (by decide)

theorem ofSextets_sextets {w n : Nat} (h : n < 64 ^ w) : ofSextets (sextets w n) = n := by
  induction w generalizing n with
  | zero =>
    rw [pow_zero, Nat.lt_one_iff] at h
    rw [h]
    rfl
  | succ w ih =>
    have hdigits : n / 64 < 64 ^ w := by
      rw [Nat.div_lt_iff_lt_mul (by decide), ← pow_succ]
      exact h
    have hvalue := ih hdigits
    unfold ofSextets at hvalue ⊢
    rw [sextets, List.foldl_append, hvalue, List.foldl_cons, List.foldl_nil, Nat.mul_comm,
      Nat.div_add_mod]

/-! ## Groups -/

theorem length_encodeGroup (bytes : List UInt8) :
    (encodeGroup bytes).length = bytes.length + 1 := by
  rw [encodeGroup, List.length_map, length_sextets]

theorem valueOf_encodeGroup {bytes : List UInt8} {c : UInt8} (h : c ∈ encodeGroup bytes) :
    (valueOf c).isSome = true := by
  obtain ⟨v, hv, rfl⟩ := List.mem_map.1 h
  rw [valueOf_symbol v (lt_of_mem_sextets hv)]
  rfl

theorem ne_pad_of_mem_encodeGroup {bytes : List UInt8} {c : UInt8} (h : c ∈ encodeGroup bytes) :
    c ≠ pad := by
  obtain ⟨v, hv, rfl⟩ := List.mem_map.1 h
  exact symbol_ne_pad (lt_of_mem_sextets hv)

/-- The digits of a group are enough for its bytes. -/
theorem mul_spare_lt {bytes : List UInt8} (h : bytes.length ≤ 3) :
    ofBE bytes * spare bytes.length < 64 ^ (bytes.length + 1) := by
  have hpow : 64 ^ (bytes.length + 1) = 256 ^ bytes.length * spare bytes.length := by
    rw [spare, show 64 = 2 ^ 6 from rfl, show 256 = 2 ^ 8 from rfl, ← pow_mul, ← pow_mul, ← pow_add]
    congr 1
    omega
  rw [hpow]
  exact Nat.mul_lt_mul_of_pos_right (ofBE_lt bytes) (Nat.two_pow_pos _)

theorem decodeGroup_encodeGroup {bytes : List UInt8} (h : bytes.length ≤ 3) :
    decodeGroup (encodeGroup bytes) = some bytes := by
  have hspare : 0 < spare bytes.length := Nat.two_pow_pos _
  unfold decodeGroup
  rw [length_encodeGroup, Nat.add_sub_cancel]
  unfold encodeGroup
  rw [mapM_valueOf_symbol fun v hv => lt_of_mem_sextets hv]
  simp only [Option.bind_eq_bind, Option.bind_some, ofSextets_sextets (mul_spare_lt h),
    Nat.mul_mod_left, if_true, Nat.mul_div_cancel _ hspare, toBE_ofBE]
  rfl

/-! ## Texts -/

theorem encodes_nil : Encodes [] [] := ⟨rfl, ⟨[], rfl, by simp⟩, rfl⟩

/-- Three more bytes in front are four more characters. -/
theorem Encodes.group {bytes text : List UInt8} (h : Encodes bytes text) (a b c : UInt8) :
    Encodes (a :: b :: c :: bytes) (encodeGroup [a, b, c] ++ text) := by
  have hlength := length_encodeGroup [a, b, c]
  refine ⟨?_, ?_, ?_⟩
  · rw [List.length_append, hlength, h.length]
    simp only [List.length_cons, List.length_nil]
    omega
  · obtain ⟨body, htext, hbody⟩ := h.padded
    refine ⟨encodeGroup [a, b, c] ++ body, ?_, fun d hd => ?_⟩
    · rw [htext, List.append_assoc]
      simp only [List.length_cons, Nat.add_assoc, Nat.add_mod_right]
    · rcases List.mem_append.1 hd with hd | hd
      · exact valueOf_encodeGroup hd
      · exact hbody d hd
  · obtain ⟨w, x, y, z, hgroup⟩ : ∃ w x y z, encodeGroup [a, b, c] = [w, x, y, z] :=
      ⟨_, _, _, _, rfl⟩
    have hz : z ≠ pad :=
      ne_pad_of_mem_encodeGroup (show z ∈ encodeGroup [a, b, c] by rw [hgroup]; simp)
    have hdecode : decodeGroup (encodeGroup [a, b, c]) = some [a, b, c] :=
      decodeGroup_encodeGroup (Nat.le_refl 3)
    rw [hgroup] at hdecode ⊢
    simp only [List.cons_append, List.nil_append, Base64.decode, hz, and_false, if_false, hdecode,
      h.decode]
    rfl

/-- One or two bytes at the end are filled up. -/
theorem encodes_pair (a b : UInt8) : Encodes [a, b] (encodeGroup [a, b] ++ [pad]) := by
  refine ⟨by simp [length_encodeGroup],
    ⟨encodeGroup [a, b], rfl, fun c hc => valueOf_encodeGroup hc⟩, ?_⟩
  obtain ⟨w, x, y, hgroup⟩ : ∃ w x y, encodeGroup [a, b] = [w, x, y] := ⟨_, _, _, rfl⟩
  have hy : y ≠ pad :=
    ne_pad_of_mem_encodeGroup (show y ∈ encodeGroup [a, b] by rw [hgroup]; simp)
  have hdecode : decodeGroup (encodeGroup [a, b]) = some [a, b] :=
    decodeGroup_encodeGroup (Nat.le_succ 2)
  rw [hgroup] at hdecode ⊢
  simpa only [List.cons_append, List.nil_append, Base64.decode, and_self, if_true, if_neg hy]
    using hdecode

theorem encodes_single (a : UInt8) : Encodes [a] (encodeGroup [a] ++ [pad, pad]) := by
  refine ⟨by simp [length_encodeGroup],
    ⟨encodeGroup [a], rfl, fun c hc => valueOf_encodeGroup hc⟩, ?_⟩
  obtain ⟨w, x, hgroup⟩ : ∃ w x, encodeGroup [a] = [w, x] := ⟨_, _, rfl⟩
  have hdecode : decodeGroup (encodeGroup [a]) = some [a] :=
    decodeGroup_encodeGroup (Nat.le_add_right 1 2)
  rw [hgroup] at hdecode ⊢
  simpa only [List.cons_append, List.nil_append, Base64.decode, and_self, if_true] using hdecode

/-- **The encoder** does what an encoder has to do, by induction in steps of three bytes. -/
theorem encodes_encode (bytes : List UInt8) : Encodes bytes (encode bytes) := by
  induction bytes using encode.induct with
  | case1 a b c rest ih => exact ih.group a b c
  | case2 a b => exact encodes_pair a b
  | case3 a => exact encodes_single a
  | case4 => exact encodes_nil

end TradingTerminal.Lib.Base64
