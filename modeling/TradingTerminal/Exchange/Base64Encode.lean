import TradingTerminal.Exchange.WebSocketHandshake
import TradingTerminal.Lib.Base64

/-!
# The base 64 of the accept key

`base64_encode` with its buffer of three bytes and running index, from a buffer with anything in it.
The loop computes the recursion `base64Encode` of the handshake (`base64EncodeLoop_eq`), which is
`Lib.Base64.encode` written with masks and shifts (`base64Encode_eq`).
-/

namespace TradingTerminal.WebSocket

open Lib Lib.Base64

/-! ## The loop -/

/-- The output, the buffer `a3` and the number of bytes in it. -/
structure Base64State where
  out : List UInt8
  a3 : Vector UInt8 3
  i : Nat
  i_lt : i < 3

namespace Base64State

/-- `base64_encode` before the loop; the buffer is not initialised. -/
def start (a3 : Vector UInt8 3) : Base64State := ⟨[], a3, 0, by decide⟩

/-- One pass of the loop over the input. -/
def push (s : Base64State) (c : UInt8) : Base64State :=
  let a3 := s.a3.set s.i c s.i_lt
  if h : s.i + 1 = 3 then
    { out := s.out ++ base64Quad a3[0] a3[1] a3[2], a3, i := 0, i_lt := by decide }
  else
    { out := s.out, a3, i := s.i + 1, i_lt := Nat.lt_of_le_of_ne s.i_lt h }

/-- `base64_encode` after the loop. -/
def finish (s : Base64State) : List UInt8 :=
  if s.i = 0 then s.out
  else
    let a3 := s.a3.mapIdx fun j x => if s.i ≤ j then 0 else x
    s.out ++ (base64Quad a3[0] a3[1] a3[2]).take (s.i + 1) ++ List.replicate (3 - s.i) pad

end Base64State

/-- `base64_encode` -/
def base64EncodeLoop (a3 : Vector UInt8 3) (input : List UInt8) : List UInt8 :=
  (input.foldl Base64State.push (Base64State.start a3)).finish

namespace Base64State

/-- A state with an empty buffer. -/
def Empty (s : Base64State) : Prop := s.i = 0

theorem push_push_push {s : Base64State} (h : s.Empty) (a b c : UInt8) :
    (((s.push a).push b).push c).Empty ∧
      (((s.push a).push b).push c).out = s.out ++ base64Quad a b c := by
  obtain ⟨out, a3, i, hi⟩ := s
  obtain rfl : i = 0 := h
  exact ⟨rfl, by simp [push]⟩

theorem finish_push {s : Base64State} (h : s.Empty) (a : UInt8) :
    (s.push a).finish = s.out ++ ((base64Quad a 0 0).take 2 ++ [pad, pad]) := by
  obtain ⟨out, a3, i, hi⟩ := s
  obtain rfl : i = 0 := h
  simp [push, finish]

theorem finish_push_push {s : Base64State} (h : s.Empty) (a b : UInt8) :
    ((s.push a).push b).finish = s.out ++ ((base64Quad a b 0).take 3 ++ [pad]) := by
  obtain ⟨out, a3, i, hi⟩ := s
  obtain rfl : i = 0 := h
  simp [push, finish]

theorem finish_foldl_push {s : Base64State} (h : s.Empty) (input : List UInt8) :
    (input.foldl push s).finish = s.out ++ base64Encode input := by
  induction input using base64Encode.induct generalizing s with
  | case1 a b c rest ih =>
    obtain ⟨hempty, hout⟩ := push_push_push h a b c
    rw [List.foldl_cons, List.foldl_cons, List.foldl_cons, ih hempty, hout, List.append_assoc,
      base64Encode]
  | case2 a b => exact finish_push_push h a b
  | case3 a => exact finish_push h a
  | case4 => rw [List.foldl_nil, base64Encode, List.append_nil]; exact if_pos h

end Base64State

/-- What is in the buffer at first does not matter. -/
theorem base64EncodeLoop_eq (a3 : Vector UInt8 3) (input : List UInt8) :
    base64EncodeLoop a3 input = base64Encode input :=
  Base64State.finish_foldl_push (s := Base64State.start a3) rfl input

/-! ## Masks and shifts -/

/-- A mask of the bits from `k` on. -/
theorem toNat_upper {m k : UInt8} (h : m.toNat >>> (k.toNat % 8) = 2 ^ (8 - k.toNat % 8) - 1)
    (a : UInt8) : ((a &&& m) >>> k).toNat = a.toNat / 2 ^ (k.toNat % 8) := by
  have hk : k.toNat % 8 < 8 := Nat.mod_lt _ (by decide)
  have ha : a.toNat / 2 ^ (k.toNat % 8) < 2 ^ (8 - k.toNat % 8) := by
    rw [Nat.div_lt_iff_lt_mul (Nat.two_pow_pos _), ← pow_add, Nat.sub_add_cancel hk.le]
    exact a.toNat_lt
  rw [UInt8.toNat_shiftRight, UInt8.toNat_and, Nat.shiftRight_and_distrib, h,
    Nat.and_two_pow_sub_one_eq_mod, Nat.shiftRight_eq_div_pow, Nat.mod_eq_of_lt ha]

/-- A mask of the lowest `w` bits. -/
theorem toNat_lower {m : UInt8} {w : Nat} (h : m.toNat = 2 ^ w - 1) (a : UInt8) :
    (a &&& m).toNat = a.toNat % 2 ^ w := by
  rw [UInt8.toNat_and, h, Nat.and_two_pow_sub_one_eq_mod]

/-- The lowest bits of a byte in front of the highest bits of the next one. -/
theorem toNat_across {m k n l : UInt8} {w : Nat} (hm : m.toNat = 2 ^ w - 1)
    (hn : n.toNat >>> (l.toNat % 8) = 2 ^ (8 - l.toNat % 8) - 1) {a b : UInt8}
    (hlt : a.toNat % 2 ^ w * 2 ^ (k.toNat % 8) + b.toNat / 2 ^ (l.toNat % 8) < 2 ^ 8) :
    (((a &&& m) <<< k) + ((b &&& n) >>> l)).toNat =
      a.toNat % 2 ^ w * 2 ^ (k.toNat % 8) + b.toNat / 2 ^ (l.toNat % 8) := by
  have hleft : a.toNat % 2 ^ w * 2 ^ (k.toNat % 8) < 2 ^ 8 :=
    Nat.lt_of_le_of_lt (Nat.le_add_right _ _) hlt
  rw [UInt8.toNat_add, UInt8.toNat_shiftLeft, toNat_lower hm, toNat_upper hn, Nat.shiftLeft_eq,
    Nat.mod_eq_of_lt hleft, Nat.mod_eq_of_lt hlt]

theorem base64Chars_getD : ∀ v < 64, base64Chars.getD v 0 = symbol v := by
  decide +kernel

theorem base64Quad_eq (a b c : UInt8) :
    base64Quad a b c =
      [a.toNat / 4, a.toNat % 4 * 16 + b.toNat / 16, b.toNat % 16 * 4 + c.toNat / 64,
        c.toNat % 64].map symbol := by
  have ha := a.toNat_lt
  have hb := b.toNat_lt
  have hc := c.toNat_lt
  have hsecond : a.toNat % 4 * 16 + b.toNat / 16 < 64 := by omega
  have hthird : b.toNat % 16 * 4 + c.toNat / 64 < 64 := by omega
  have h0 : ((a &&& 0xfc) >>> 2).toNat = a.toNat / 4 := toNat_upper rfl a
  have h1 : (((a &&& 0x03) <<< 4) + ((b &&& 0xf0) >>> 4)).toNat =
      a.toNat % 4 * 16 + b.toNat / 16 :=
    toNat_across (w := 2) rfl rfl (Nat.lt_trans hsecond (by decide))
  have h2 : (((b &&& 0x0f) <<< 2) + ((c &&& 0xc0) >>> 6)).toNat =
      b.toNat % 16 * 4 + c.toNat / 64 :=
    toNat_across (w := 4) rfl rfl (Nat.lt_trans hthird (by decide))
  have h3 : (c &&& 0x3f).toNat = c.toNat % 64 := toNat_lower (w := 6) rfl c
  simp only [base64Quad, List.map_cons, List.map_nil, h0, h1, h2, h3]
  rw [base64Chars_getD _ (by omega), base64Chars_getD _ hsecond, base64Chars_getD _ hthird,
    base64Chars_getD _ (Nat.mod_lt _ (by decide))]

/-! ## Groups of bytes -/

/-- Up to three bytes, filled up with zero bytes: one more character than bytes. -/
theorem base64Quad_take (bytes : List UInt8) (h : bytes.length ≤ 3) :
    (base64Quad (bytes.getD 0 0) (bytes.getD 1 0) (bytes.getD 2 0)).take (bytes.length + 1) =
      encodeGroup bytes := by
  rw [base64Quad_eq, encodeGroup, ← List.map_take]
  congr 1
  rcases bytes with _ | ⟨a, _ | ⟨b, _ | ⟨c, _ | ⟨d, rest⟩⟩⟩⟩
  · rfl
  · have ha := a.toNat_lt
    simp [sextets, ofBE, spare]
    omega
  · have ha := a.toNat_lt
    have hb := b.toNat_lt
    simp [sextets, ofBE, spare]
    omega
  · have ha := a.toNat_lt
    have hb := b.toNat_lt
    have hc := c.toNat_lt
    simp [sextets, ofBE, spare]
    omega
  · simp only [List.length_cons] at h
    omega

theorem base64Encode_eq (input : List UInt8) : base64Encode input = encode input := by
  induction input using base64Encode.induct with
  | case1 a b c rest ih =>
    have hgroup : (base64Quad a b c).take 4 = encodeGroup [a, b, c] :=
      base64Quad_take [a, b, c] (Nat.le_refl 3)
    rw [List.take_of_length_le (Nat.le_refl 4)] at hgroup
    rw [base64Encode, encode, hgroup, ih]
  | case2 a b =>
    have hgroup : (base64Quad a b 0).take 3 = encodeGroup [a, b] :=
      base64Quad_take [a, b] (Nat.le_succ 2)
    rw [base64Encode, encode, hgroup]
    rfl
  | case3 a =>
    have hgroup : (base64Quad a 0 0).take 2 = encodeGroup [a] :=
      base64Quad_take [a] (Nat.le_add_right 1 2)
    rw [base64Encode, encode, hgroup]
    rfl
  | case4 => rfl

theorem base64Encode_encodes (input : List UInt8) : Encodes input (base64Encode input) := by
  rw [base64Encode_eq]
  exact encodes_encode input

/-- The accept key that the client expects is the text of the hash. -/
theorem websocketAcceptKey_encodes (sha1Hash : List UInt8 → List UInt8) (clientKey : List UInt8) :
    Encodes (sha1Hash (clientKey ++ ascii "258EAFA5-E914-47DA-95CA-C5AB0DC85B11"))
      (websocketAcceptKey sha1Hash clientKey) :=
  base64Encode_encodes _

/-- **The code** of `base64_encode` encodes every string, whatever its buffer holds at first. -/
theorem base64EncodeLoop_encodes (a3 : Vector UInt8 3) (input : List UInt8) :
    Encodes input (base64EncodeLoop a3 input) := by
  rw [base64EncodeLoop_eq]
  exact base64Encode_encodes input

example (a3 : Vector UInt8 3) : base64EncodeLoop a3 (ascii "fooba") = ascii "Zm9vYmE=" := by
  rw [base64EncodeLoop_eq]
  decide +kernel

end TradingTerminal.WebSocket
