import Mathlib.Data.Nat.Bitwise
import Mathlib.Algebra.Order.Ring.Nat
import Mathlib.Tactic.Ring

/-!
# Big-endian numbers and rotating keys

`toBE w n` writes the lowest `w` bytes of `n`, most significant first, and `ofBE` reads such bytes
back (`ofBE_toBE`). `shiftIn` is the step of a decoder that shifts and ors bytes into an accumulator;
it computes the same value (`foldl_shiftIn`). `xorKey` combines bytes with a key indexed by position;
doing so twice gives the bytes back (`xorKey_xorKey`).
-/

namespace TradingTerminal.Lib

/-! ## Big-endian numbers -/

/-- The number with the given bytes, most significant first. -/
def ofBE : List UInt8 → Nat
  | [] => 0
  | b :: bs => b.toNat * 256 ^ bs.length + ofBE bs

/-- The lowest `w` bytes of `n`, most significant first. -/
def toBE : Nat → Nat → List UInt8
  | 0, _ => []
  | w + 1, n => UInt8.ofNat (n / 256 ^ w) :: toBE w n

@[simp] theorem length_toBE (w n : Nat) : (toBE w n).length = w := by
  induction w with
  | zero => rfl
  | succ w ih => rw [toBE, List.length_cons, ih]

theorem ofBE_toBE (w n : Nat) : ofBE (toBE w n) = n % 256 ^ w := by
  induction w with
  | zero => rw [toBE, ofBE, pow_zero, Nat.mod_one]
  | succ w ih =>
    have hb : (UInt8.ofNat (n / 256 ^ w)).toNat = n / 256 ^ w % 256 := UInt8.toNat_ofNat'
    rw [toBE, ofBE, length_toBE, ih, hb, pow_succ, Nat.mod_mul, Nat.add_comm, Nat.mul_comm]

theorem ofBE_toBE_of_lt {w n : Nat} (h : n < 256 ^ w) : ofBE (toBE w n) = n := by
  rw [ofBE_toBE, Nat.mod_eq_of_lt h]

theorem ofBE_lt (bs : List UInt8) : ofBE bs < 256 ^ bs.length := by
  induction bs with
  | nil => simp [ofBE]
  | cons b bs ih =>
    have hb : b.toNat < 256 := b.toNat_lt
    rw [ofBE, List.length_cons, pow_succ]
    calc b.toNat * 256 ^ bs.length + ofBE bs
        < b.toNat * 256 ^ bs.length + 256 ^ bs.length := Nat.add_lt_add_left ih _
      _ = (b.toNat + 1) * 256 ^ bs.length := by ring
      _ ≤ 256 * 256 ^ bs.length := Nat.mul_le_mul_right _ hb
      _ = 256 ^ bs.length * 256 := Nat.mul_comm _ _

theorem ofBE_inj {bs cs : List UInt8} (hlength : bs.length = cs.length) (h : ofBE bs = ofBE cs) :
    bs = cs := by
  induction bs generalizing cs with
  | nil => exact (List.length_eq_zero_iff.1 hlength.symm).symm
  | cons b bs ih =>
    cases cs with
    | nil => cases hlength
    | cons c cs =>
      have htail : bs.length = cs.length := Nat.succ.inj hlength
      have hb := ofBE_lt bs
      have hc := ofBE_lt cs
      rw [ofBE, ofBE, htail] at h
      rw [htail] at hb
      have hquotient (d r : Nat) (hr : r < 256 ^ cs.length) :
          (d * 256 ^ cs.length + r) / 256 ^ cs.length = d := by
        rw [Nat.add_comm, Nat.add_mul_div_right _ _ (Nat.pow_pos (by decide)), Nat.div_eq_of_lt hr,
          Nat.zero_add]
      have hhead : b.toNat = c.toNat := by
        rw [← hquotient b.toNat _ hb, h, hquotient c.toNat _ hc]
      rw [hhead] at h
      rw [UInt8.toNat_inj.1 hhead, ih htail (Nat.add_left_cancel h)]

theorem toBE_ofBE (bs : List UInt8) : toBE bs.length (ofBE bs) = bs :=
  ofBE_inj (length_toBE _ _) (ofBE_toBE_of_lt (ofBE_lt bs))

/-- Shift a byte into an accumulator from the right. -/
def shiftIn (acc : Nat) (b : UInt8) : Nat := acc <<< 8 ||| b.toNat

theorem shiftIn_eq (acc : Nat) (b : UInt8) : shiftIn acc b = acc * 256 + b.toNat := by
  unfold shiftIn
  rw [← Nat.shiftLeft_add_eq_or_of_lt (show b.toNat < 2 ^ 8 from b.toNat_lt), Nat.shiftLeft_eq]

theorem foldl_shiftIn (bs : List UInt8) (acc : Nat) :
    bs.foldl shiftIn acc = acc * 256 ^ bs.length + ofBE bs := by
  induction bs generalizing acc with
  | nil => simp [ofBE]
  | cons b bs ih =>
    rw [List.foldl_cons, ih, shiftIn_eq, ofBE, List.length_cons, pow_succ]
    ring

/-! ## Rotating keys -/

/-- Every byte combined with the key at its position, the first position being `i`. -/
def xorKey (key : Nat → UInt8) : Nat → List UInt8 → List UInt8
  | _, [] => []
  | i, b :: bs => (b ^^^ key i) :: xorKey key (i + 1) bs

@[simp] theorem length_xorKey (key : Nat → UInt8) (i : Nat) (bs : List UInt8) :
    (xorKey key i bs).length = bs.length := by
  induction bs generalizing i with
  | nil => rfl
  | cons b bs ih => rw [xorKey, List.length_cons, ih, List.length_cons]

theorem xorKey_xorKey (key : Nat → UInt8) (i : Nat) (bs : List UInt8) :
    xorKey key i (xorKey key i bs) = bs := by
  induction bs generalizing i with
  | nil => rfl
  | cons b bs ih => rw [xorKey, xorKey, ih, UInt8.xor_assoc, UInt8.xor_self, UInt8.xor_zero]

end TradingTerminal.Lib
