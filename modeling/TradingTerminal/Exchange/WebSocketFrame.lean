import TradingTerminal.Lib.Bytes

/-!
# WebSocket frames of the Alpaca client

`encodeFrame` is the frame that `send_websocket_message` builds; `extractPayload` is the part of
`handle_websocket_message` before the JSON parser: header, mask and payload. Strings are lists of
bytes and `size_t` arithmetic is taken modulo `2 ^ 64`.

`extractPayload` runs in `Except Fault`: a read past the end of the string, `substr` past the end and
`reserve` beyond the largest string are the ways it can go wrong. `Delivers` says what a frame parser
should hand over, in unbounded arithmetic. The two agree on every string except when the length sum
wraps around (`frameSafe_iff`), and decoding undoes encoding (`encodeFrame_roundTrip`).
-/

namespace TradingTerminal.WebSocket

open Lib

/-! ## Strings and `size_t` -/

/-- What can go wrong before the `try` block. -/
inductive Fault where
  | outOfBounds (i : Nat)
  | outOfRange
  | lengthError
  deriving DecidableEq, Repr

/-- A sum as `size_t` holds it. -/
def sizeT (n : Nat) : Nat := n % 2 ^ 64

/-- The largest size of a `std::string`, `PTRDIFF_MAX`. -/
def maxSize : Nat := 2 ^ 63 - 1

def byteAt (message : List UInt8) (i : Nat) : Except Fault UInt8 :=
  match message[i]? with
  | some b => .ok b
  | none => .error (.outOfBounds i)

def readBytes (message : List UInt8) : Nat → Nat → Except Fault (List UInt8)
  | _, 0 => .ok []
  | i, n + 1 => do
    let b ← byteAt message i
    let bs ← readBytes message (i + 1) n
    return b :: bs

/-- `message.substr(pos, len)`. -/
def substr (message : List UInt8) (pos len : Nat) : Except Fault (List UInt8) :=
  if message.length < pos then .error .outOfRange else .ok ((message.drop pos).take len)

/-- `payload.reserve(n)`. -/
def reserve (n : Nat) : Except Fault Unit :=
  if maxSize < n then .error .lengthError else .ok ()

/-- `payload_len = (payload_len << 8) | byte` in `size_t`. -/
def shiftInSizeT (acc : Nat) (b : UInt8) : Nat := sizeT (acc <<< 8) ||| b.toNat

/-! ## Encoder and decoder -/

def clientMask : List UInt8 := [0x12, 0x34, 0x56, 0x78]

/-- The key that a mask rotates through. -/
def maskKey (mask : List UInt8) (i : Nat) : UInt8 := mask.getD (i % 4) 0

/-- The frame that `AlpacaClient::send_websocket_message` sends. -/
def encodeFrame (message : List UInt8) : List UInt8 :=
  let len := message.length
  let header : List UInt8 :=
    if len ≤ 125 then [UInt8.ofNat (0x80 ||| len)]
    else if len ≤ 65535 then
      [0x80 ||| 126, UInt8.ofNat ((len >>> 8) &&& 0xFF), UInt8.ofNat (len &&& 0xFF)]
    else
      (0x80 ||| 127) ::
        [56, 48, 40, 32, 24, 16, 8, 0].map fun s => UInt8.ofNat ((len >>> s) &&& 0xFF)
  0x81 :: header ++ clientMask ++ xorKey (maskKey clientMask) 0 message

/-- The length field: the position after it and the declared length, or nothing when the string ends
before it does. -/
def readLength (message : List UInt8) (len7 : Nat) : Except Fault (Option (Nat × Nat)) :=
  if len7 = 126 then
    if message.length < 4 then .ok none
    else do
      let bs ← readBytes message 2 2
      return some (4, bs.foldl shiftInSizeT 0)
  else if len7 = 127 then
    if message.length < 10 then .ok none
    else do
      let bs ← readBytes message 2 8
      return some (10, bs.foldl shiftInSizeT 0)
  else .ok (some (2, len7))

/-- The payload of a string that passed the length check. -/
def readPayload (message : List UInt8) (isMasked : Bool) (pos payloadLen : Nat) :
    Except Fault (List UInt8) :=
  if isMasked then do
    let mk ← readBytes message pos 4
    reserve payloadLen
    let bs ← readBytes message (pos + 4) payloadLen
    return xorKey (maskKey mk) 0 bs
  else substr message pos payloadLen

/-- `AlpacaClient::handle_websocket_message` up to the JSON parser: the payload it hands over, if
any. -/
def extractPayload (message : List UInt8) : Except Fault (Option (List UInt8)) := do
  if message.length < 2 then return none
  let first ← byteAt message 0
  if first &&& 0x0F ≠ 0x01 ∧ first &&& 0x0F ≠ 0x00 then return none
  let second ← byteAt message 1
  let isMasked : Bool := second &&& 0x80 ≠ 0
  match ← readLength message (second &&& 0x7F).toNat with
  | none => return none
  | some (pos, payloadLen) =>
    if message.length < sizeT (sizeT (pos + if isMasked then 4 else 0) + payloadLen) then
      return none
    return some (← readPayload message isMasked pos payloadLen)

/-! ## What a frame declares -/

def TextOrContinuation (message : List UInt8) : Prop :=
  message.getD 0 0 &&& 0x0F = 0x01 ∨ message.getD 0 0 &&& 0x0F = 0x00

instance (message : List UInt8) : Decidable (TextOrContinuation message) :=
  inferInstanceAs (Decidable (_ ∨ _))

/-- The 7-bit length. -/
def len7 (message : List UInt8) : Nat := (message.getD 1 0 &&& 0x7F).toNat

def masked (message : List UInt8) : Bool := message.getD 1 0 &&& 0x80 ≠ 0

/-- The length of the header without the mask. -/
def headerLen (message : List UInt8) : Nat :=
  if len7 message = 126 then 4 else if len7 message = 127 then 10 else 2

def maskLen (message : List UInt8) : Nat := if masked message then 4 else 0

def declaredLen (message : List UInt8) : Nat :=
  if len7 message = 126 then ofBE ((message.drop 2).take 2)
  else if len7 message = 127 then ofBE ((message.drop 2).take 8)
  else len7 message

/-- The bytes after header and mask that the frame declares, unmasked. -/
def payloadBytes (message : List UInt8) : List UInt8 :=
  let body := (message.drop (headerLen message + maskLen message)).take (declaredLen message)
  if masked message then
    xorKey (maskKey ((message.drop (headerLen message)).take 4)) 0 body
  else body

/-- The string starts with a complete frame of text or continuation, whose payload is `payload`. -/
structure Delivers (message payload : List UInt8) : Prop where
  two_le : 2 ≤ message.length
  opcode : TextOrContinuation message
  header : headerLen message ≤ message.length
  complete : headerLen message + maskLen message + declaredLen message ≤ message.length
  payload_eq : payload = payloadBytes message

/-! ## Reading -/

theorem readBytes_eq {message : List UInt8} {i n : Nat} (h : i + n ≤ message.length) :
    readBytes message i n = .ok ((message.drop i).take n) := by
  induction n generalizing i with
  | zero => simp [readBytes]
  | succ n ih =>
    have hi : i < message.length := by omega
    rw [readBytes, byteAt, List.getElem?_eq_getElem hi, ih (by omega),
      List.drop_eq_getElem_cons hi, List.take_succ_cons]
    rfl

theorem foldl_shiftInSizeT (bs : List UInt8) (acc : Nat) (h : (acc + 1) * 256 ^ bs.length ≤ 2 ^ 64) :
    bs.foldl shiftInSizeT acc = acc * 256 ^ bs.length + ofBE bs := by
  rw [← foldl_shiftIn]
  induction bs generalizing acc with
  | nil => rfl
  | cons b bs ih =>
    have hb : b.toNat < 256 := b.toNat_lt
    have hpow : 0 < 256 ^ bs.length := Nat.pow_pos (by omega)
    rw [List.length_cons, pow_succ] at h
    have hacc : acc * 256 < 2 ^ 64 := by
      calc acc * 256 < (acc + 1) * 256 := by omega
        _ ≤ (acc + 1) * (256 ^ bs.length * 256) :=
          Nat.mul_le_mul_left _ (Nat.le_mul_of_pos_left _ hpow)
        _ ≤ 2 ^ 64 := h
    have hstep : shiftInSizeT acc b = shiftIn acc b := by
      unfold shiftInSizeT shiftIn sizeT
      rw [Nat.mod_eq_of_lt (by rwa [Nat.shiftLeft_eq])]
    rw [List.foldl_cons, List.foldl_cons, hstep]
    refine ih _ ?_
    calc (shiftIn acc b + 1) * 256 ^ bs.length
        ≤ ((acc + 1) * 256) * 256 ^ bs.length := by
          rw [shiftIn_eq]; exact Nat.mul_le_mul_right _ (by omega)
      _ = (acc + 1) * (256 ^ bs.length * 256) := by ring
      _ ≤ 2 ^ 64 := h

theorem headerLen_le (message : List UInt8) : headerLen message ≤ 10 := by
  unfold headerLen
  split
  · decide
  · split <;> decide

theorem maskLen_le (message : List UInt8) : maskLen message ≤ 4 := by
  unfold maskLen
  split <;> decide

theorem ofBE_take_lt (bs : List UInt8) (k : Nat) : ofBE (bs.take k) < 256 ^ k :=
  (ofBE_lt _).trans_le (Nat.pow_le_pow_right (by omega) (List.length_take_le k bs))

theorem len7_lt (message : List UInt8) : len7 message < 128 := by
  unfold len7
  rw [UInt8.toNat_and]
  exact Nat.lt_of_le_of_lt Nat.and_le_right (by decide)

theorem declaredLen_lt (message : List UInt8) : declaredLen message < 2 ^ 64 := by
  have h2 := ofBE_take_lt (message.drop 2) 2
  have h8 := ofBE_take_lt (message.drop 2) 8
  have h7 := len7_lt message
  unfold declaredLen
  split
  · omega
  · split <;> omega

/-- The length field is read as declared, or missed when the string ends before it does. -/
theorem readLength_eq (message : List UInt8) (h : 2 ≤ message.length) :
    readLength message (len7 message) = .ok
      (if headerLen message ≤ message.length then some (headerLen message, declaredLen message)
       else none) := by
  unfold readLength headerLen declaredLen
  split
  · by_cases hlen : message.length < 4
    · simp [hlen]
    · have htake : ((message.drop 2).take 2).length = 2 := by simp; omega
      have hfold := foldl_shiftInSizeT ((message.drop 2).take 2) 0 (by rw [htake]; decide)
      rw [if_neg hlen, if_pos (by omega), readBytes_eq (by omega)]
      simp only [bind, Except.bind, pure, Except.pure, hfold, Nat.zero_mul, Nat.zero_add]
  · split
    · by_cases hlen : message.length < 10
      · simp [hlen]
      · have htake : ((message.drop 2).take 8).length = 8 := by simp; omega
        have hfold := foldl_shiftInSizeT ((message.drop 2).take 8) 0 (by rw [htake]; decide)
        rw [if_neg hlen, if_pos (by omega), readBytes_eq (by omega)]
        simp only [bind, Except.bind, pure, Except.pure, hfold, Nat.zero_mul, Nat.zero_add]
    · rfl

theorem byteAt_eq {message : List UInt8} {i : Nat} (h : i < message.length) :
    byteAt message i = .ok (message.getD i 0) := by
  rw [byteAt, List.getElem?_eq_getElem h, List.getD_eq_getElem _ _ h]

/-- `extractPayload` as a decision on the declared lengths, in `size_t` arithmetic. -/
theorem extractPayload_eq (message : List UInt8) :
    extractPayload message =
      if 2 ≤ message.length ∧ TextOrContinuation message ∧ headerLen message ≤ message.length ∧
          sizeT (headerLen message + maskLen message + declaredLen message) ≤ message.length then
        (readPayload message (masked message) (headerLen message) (declaredLen message)).map some
      else .ok none := by
  unfold extractPayload
  by_cases h2 : message.length < 2
  · simp only [h2, ite_true, Nat.not_le.2 h2, false_and, ite_false]
    rfl
  rw [if_neg h2, byteAt_eq (by omega), byteAt_eq (by omega)]
  have hlength := readLength_eq message (by omega)
  have hsum : sizeT (sizeT (headerLen message + maskLen message) + declaredLen message) =
      sizeT (headerLen message + maskLen message + declaredLen message) := by
    simp only [sizeT, Nat.mod_add_mod]
  by_cases hop : TextOrContinuation message
  · have hno : ¬ (message.getD 0 0 &&& 0x0F ≠ 0x01 ∧ message.getD 0 0 &&& 0x0F ≠ 0x00) := by
      rintro ⟨h1, h0⟩
      exact hop.elim h1 h0
    simp only [bind, Except.bind, pure, Except.pure, hno, ite_false]
    rw [show (message.getD 1 0 &&& 0x7F).toNat = len7 message from rfl, hlength,
      show decide (message.getD 1 0 &&& 0x80 ≠ 0) = masked message from rfl]
    by_cases hheader : headerLen message ≤ message.length
    · simp only [hheader, ite_true, hop, Nat.not_lt.1 h2, true_and]
      rw [show (if masked message = true then 4 else 0) = maskLen message from rfl, hsum]
      by_cases hfit : sizeT (headerLen message + maskLen message + declaredLen message) ≤
          message.length
      · rw [if_neg (Nat.not_lt.2 hfit), if_pos hfit]
        cases readPayload message (masked message) (headerLen message) (declaredLen message) <;> rfl
      · rw [if_pos (Nat.lt_of_not_le hfit), if_neg hfit]
    · simp only [hheader, ite_false, false_and, and_false]
  · have hyes : message.getD 0 0 &&& 0x0F ≠ 0x01 ∧ message.getD 0 0 &&& 0x0F ≠ 0x00 :=
      not_or.1 hop
    simp only [bind, Except.bind, pure, Except.pure, hyes, hop, ite_true, false_and, and_false,
      ite_false, ne_eq, not_false_eq_true, and_self]

theorem readPayload_eq {message : List UInt8}
    (h : headerLen message + maskLen message + declaredLen message ≤ message.length)
    (hmax : declaredLen message ≤ maxSize) :
    readPayload message (masked message) (headerLen message) (declaredLen message) =
      .ok (payloadBytes message) := by
  unfold readPayload payloadBytes
  unfold maskLen at h ⊢
  cases hm : masked message with
  | true =>
    rw [hm] at h
    simp only [ite_true] at h ⊢
    rw [readBytes_eq (by omega), reserve, if_neg (Nat.not_lt.2 hmax), readBytes_eq h]
    rfl
  | false =>
    rw [hm] at h
    simp only [Bool.false_eq_true, ite_false, Nat.add_zero] at h ⊢
    rw [substr, if_neg (by omega)]

/-! ## The parser is safe unless the sum wraps -/

/-- A complete frame is extracted, whatever follows it in the string. -/
theorem extractPayload_of_delivers {message payload : List UInt8} (h : Delivers message payload)
    (hmax : declaredLen message ≤ maxSize) : extractPayload message = .ok (some payload) := by
  have hsum : headerLen message + maskLen message + declaredLen message < 2 ^ 64 := by
    have h1 := headerLen_le message
    have h2 := maskLen_le message
    unfold maxSize at hmax
    omega
  have hfit : sizeT (headerLen message + maskLen message + declaredLen message) ≤
      message.length := by
    rw [sizeT, Nat.mod_eq_of_lt hsum]
    exact h.complete
  rw [extractPayload_eq, if_pos ⟨h.two_le, h.opcode, h.header, hfit⟩,
    readPayload_eq h.complete hmax, h.payload_eq]
  rfl

/-- The parser neither faults nor misjudges the string: it hands over exactly the payloads that the
string delivers. -/
def FrameSafe (message : List UInt8) : Prop :=
  ∃ result, extractPayload message = .ok result ∧
    ∀ payload, result = some payload ↔ Delivers message payload

/-- The sum of header, mask and declared length wraps around to something that the string seems to
hold. -/
def LengthWraps (message : List UInt8) : Prop :=
  2 ≤ message.length ∧ TextOrContinuation message ∧ headerLen message ≤ message.length ∧
    2 ^ 64 ≤ headerLen message + maskLen message + declaredLen message ∧
    headerLen message + maskLen message + declaredLen message ≤ message.length + 2 ^ 64

/-- **Safety of the frame parser.** On every string, the parser reads within bounds, throws nothing
and yields a payload exactly when the declared frame is complete, if and only if the length sum does
not wrap around. -/
theorem frameSafe_iff (message : List UInt8) (hmax : message.length ≤ maxSize) :
    FrameSafe message ↔ ¬ LengthWraps message := by
  have hmaxSize : maxSize < 2 ^ 63 := by decide
  have hheader := headerLen_le message
  have hmask := maskLen_le message
  have hdeclared := declaredLen_lt message
  constructor
  · -- past a wrapped check the parser can only fault or hand over what is not delivered
    rintro ⟨result, hresult, hiff⟩ ⟨h2, hop, hh, hge, hle⟩
    have hwrapped : sizeT (headerLen message + maskLen message + declaredLen message) ≤
        message.length := by
      unfold sizeT
      omega
    rw [extractPayload_eq, if_pos ⟨h2, hop, hh, hwrapped⟩] at hresult
    cases hread : readPayload message (masked message) (headerLen message) (declaredLen message) with
    | error f => rw [hread] at hresult; cases hresult
    | ok payload =>
      rw [hread] at hresult
      have hcomplete := ((hiff payload).1 (Except.ok.inj hresult).symm).complete
      omega
  · intro hwrap
    by_cases hpass : 2 ≤ message.length ∧ TextOrContinuation message ∧
        headerLen message ≤ message.length ∧
        sizeT (headerLen message + maskLen message + declaredLen message) ≤ message.length
    · obtain ⟨h2, hop, hh, hfit⟩ := hpass
      have hcomplete : headerLen message + maskLen message + declaredLen message ≤
          message.length := by
        by_contra hcon
        refine hwrap ⟨h2, hop, hh, ?_, ?_⟩ <;> unfold sizeT at hfit <;> omega
      have hdelivers : Delivers message (payloadBytes message) := ⟨h2, hop, hh, hcomplete, rfl⟩
      refine ⟨_, extractPayload_of_delivers hdelivers (by omega), fun payload => ⟨?_, ?_⟩⟩
      · intro heq
        exact Option.some.inj heq ▸ hdelivers
      · intro h
        rw [h.payload_eq]
    · refine ⟨none, by rw [extractPayload_eq, if_neg hpass], fun payload => ⟨nofun, fun h => ?_⟩⟩
      refine absurd ⟨h.two_le, h.opcode, h.header, ?_⟩ hpass
      have := h.complete
      unfold sizeT
      omega

/-- A masked text frame of 14 bytes that declares a payload of `2 ^ 64 - 1` bytes. -/
def hugeFrame : List UInt8 :=
  [0x81, 0xFF, 0xFF, 0xFF, 0xFF, 0xFF, 0xFF, 0xFF, 0xFF, 0xFF, 0, 0, 0, 0]

/-- On `hugeFrame` the wrapped sum is 13 and `reserve` throws outside the `try` block. -/
theorem hugeFrame_not_frameSafe :
    hugeFrame.length ≤ maxSize ∧ extractPayload hugeFrame = .error .lengthError ∧
      ¬ FrameSafe hugeFrame := by
  have hfault : extractPayload hugeFrame = .error .lengthError := by decide +kernel
  refine ⟨by decide, hfault, ?_⟩
  rintro ⟨result, hresult, -⟩
  rw [hfault] at hresult
  cases hresult

theorem hiFrame_frameSafe : FrameSafe [0x81, 0x02, 0x68, 0x69] :=
  (frameSafe_iff [0x81, 0x02, 0x68, 0x69] (by decide)).2 fun h => absurd h.2.2.2.1 (by decide)

/-! ## Frames by their length form -/

inductive LengthForm where
  | short
  | medium
  | long
  deriving DecidableEq, Repr

namespace LengthForm

def Fits : LengthForm → Nat → Prop
  | .short, n => n ≤ 125
  | .medium, n => n ≤ 65535
  | .long, n => n < 2 ^ 63

def len7 : LengthForm → Nat → Nat
  | .short, n => n
  | .medium, _ => 126
  | .long, _ => 127

def headerLen : LengthForm → Nat
  | .short => 2
  | .medium => 4
  | .long => 10

def extension : LengthForm → Nat → List UInt8
  | .short, _ => []
  | .medium, n => toBE 2 n
  | .long, n => toBE 8 n

/-- The second byte of a header: the mask bit and a 7-bit value. -/
def secondByte (maskBit : Bool) (value : Nat) : UInt8 :=
  (if maskBit then 0x80 else 0) ||| UInt8.ofNat value

/-- The length field of a header: the second byte and the extended length. -/
def field (maskBit : Bool) (form : LengthForm) (n : Nat) : List UInt8 :=
  secondByte maskBit (form.len7 n) :: form.extension n

def shortest (n : Nat) : LengthForm :=
  if n ≤ 125 then .short else if n ≤ 65535 then .medium else .long

theorem shortest_fits {n : Nat} (h : n < 2 ^ 63) : (shortest n).Fits n := by
  unfold shortest
  split
  · assumption
  · split <;> assumption

@[simp] theorem length_field (maskBit : Bool) (form : LengthForm) (n : Nat) :
    (form.field maskBit n).length + 1 = form.headerLen := by
  cases form <;> simp [field, extension, headerLen]

end LengthForm

/-- What a string declares whose second byte starts a length field. -/
structure Declares (message : List UInt8) (maskBit : Bool) (form : LengthForm) (n : Nat) : Prop where
  masked : masked message = maskBit
  len7 : len7 message = form.len7 n
  headerLen : headerLen message = form.headerLen
  declaredLen : declaredLen message = n

theorem LengthForm.len7_lt {form : LengthForm} {n : Nat} (h : form.Fits n) : form.len7 n < 128 := by
  cases form with
  | short => exact Nat.lt_of_le_of_lt h (by omega)
  | medium => exact show 126 < 128 by decide
  | long => exact show 127 < 128 by decide

/-- A short length is not one of the two values that announce an extended one. -/
theorem LengthForm.len7_short {n : Nat} (h : LengthForm.short.Fits n) :
    LengthForm.short.len7 n ≠ 126 ∧ LengthForm.short.len7 n ≠ 127 := by
  have hn : LengthForm.short.len7 n ≤ 125 := h
  constructor <;> omega

theorem secondByte_len7 (maskBit : Bool) :
    ∀ value < 128, (LengthForm.secondByte maskBit value &&& 0x7F).toNat = value := by
  cases maskBit <;> decide

theorem secondByte_mask (maskBit : Bool) :
    ∀ value < 128, decide (LengthForm.secondByte maskBit value &&& 0x80 ≠ 0) = maskBit := by
  cases maskBit <;> decide

/-- A header whose length field is written in a form that fits declares that form and length. -/
theorem declares_field (first : UInt8) (maskBit : Bool) {form : LengthForm} {n : Nat}
    (h : form.Fits n) (rest : List UInt8) :
    Declares (first :: (form.field maskBit n ++ rest)) maskBit form n := by
  have hlen7 : len7 (first :: (form.field maskBit n ++ rest)) = form.len7 n :=
    secondByte_len7 maskBit _ (LengthForm.len7_lt h)
  refine ⟨secondByte_mask maskBit _ (LengthForm.len7_lt h), hlen7, ?_, ?_⟩
  · unfold headerLen
    rw [hlen7]
    cases form with
    | short =>
      rw [if_neg (LengthForm.len7_short h).1, if_neg (LengthForm.len7_short h).2]
      rfl
    | medium => rfl
    | long => rfl
  · unfold declaredLen
    rw [hlen7]
    cases form with
    | short =>
      rw [if_neg (LengthForm.len7_short h).1, if_neg (LengthForm.len7_short h).2]
      rfl
    | medium =>
      have hn : n ≤ 65535 := h
      simp only [LengthForm.len7, ite_true, LengthForm.field, LengthForm.extension,
        List.cons_append, List.drop_succ_cons, List.drop_zero]
      rw [List.take_left' (length_toBE 2 n), ofBE_toBE_of_lt (by omega)]
    | long =>
      have hn : n < 2 ^ 63 := h
      simp only [LengthForm.len7, Nat.reduceEqDiff, ite_false, ite_true, LengthForm.field,
        LengthForm.extension, List.cons_append, List.drop_succ_cons, List.drop_zero]
      rw [List.take_left' (length_toBE 8 n), ofBE_toBE_of_lt (by omega)]

theorem drop_headerLen (first : UInt8) (maskBit : Bool) (form : LengthForm) (n : Nat)
    (rest : List UInt8) :
    (first :: (form.field maskBit n ++ rest)).drop form.headerLen = rest := by
  rw [← LengthForm.length_field maskBit form n, List.drop_succ_cons, List.drop_left]

theorem textOrContinuation_text (rest : List UInt8) : TextOrContinuation (0x81 :: rest) :=
  Or.inl (show (0x81 : UInt8) &&& 0x0F = 0x01 by decide)

/-! ## Decoding undoes encoding -/

theorem ofNat_and_255 (n : Nat) : UInt8.ofNat (n &&& 0xFF) = UInt8.ofNat n := by
  rw [show (0xFF : Nat) = 2 ^ 8 - 1 from rfl, Nat.and_two_pow_sub_one_eq_mod, UInt8.ofNat_mod_size]

/-- The frame of the client is a masked text frame in the shortest length form. -/
theorem encodeFrame_eq (message : List UInt8) :
    encodeFrame message = 0x81 :: ((LengthForm.shortest message.length).field true message.length ++
      (clientMask ++ xorKey (maskKey clientMask) 0 message)) := by
  unfold encodeFrame LengthForm.shortest
  dsimp only
  by_cases h1 : message.length ≤ 125
  · have hor : ∀ n < 126, UInt8.ofNat (0x80 ||| n) = LengthForm.secondByte true n := by decide
    rw [if_pos h1, if_pos h1, hor _ (by omega)]
    rfl
  · by_cases h2 : message.length ≤ 65535
    · rw [if_neg h1, if_pos h2, if_neg h1, if_pos h2]
      simp only [ofNat_and_255, Nat.shiftRight_eq_div_pow, LengthForm.field, LengthForm.extension,
        toBE, pow_zero, Nat.div_one]
      rfl
    · rw [if_neg h1, if_neg h2, if_neg h1, if_neg h2]
      simp only [ofNat_and_255, Nat.shiftRight_eq_div_pow]
      rfl

/-- **Round trip.** The frame built for a message whose length fits in 63 bits is one complete text
frame, from which the parser extracts the message; its length field has the 7-bit form up to 125
bytes, the 16-bit form up to 65535 and the 64-bit form above. -/
theorem encodeFrame_roundTrip (message : List UInt8) (h : message.length < 2 ^ 63) :
    extractPayload (encodeFrame message) = .ok (some message) ∧
      (encodeFrame message).head? = some 0x81 ∧
      headerLen (encodeFrame message) + maskLen (encodeFrame message) +
        declaredLen (encodeFrame message) = (encodeFrame message).length ∧
      (message.length ≤ 125 → len7 (encodeFrame message) = message.length) ∧
      (126 ≤ message.length → message.length ≤ 65535 → len7 (encodeFrame message) = 126) ∧
      (65536 ≤ message.length → len7 (encodeFrame message) = 127) := by
  have hfits := LengthForm.shortest_fits h
  obtain ⟨hmasked, hlen7, hheader, hdeclared⟩ := declares_field 0x81 true hfits
    (clientMask ++ xorKey (maskKey clientMask) 0 message)
  have hdrop := drop_headerLen 0x81 true (LengthForm.shortest message.length) message.length
    (clientMask ++ xorKey (maskKey clientMask) 0 message)
  have hfield := LengthForm.length_field true (LengthForm.shortest message.length) message.length
  rw [← encodeFrame_eq] at hmasked hlen7 hheader hdeclared hdrop
  have hlength : (encodeFrame message).length =
      (LengthForm.shortest message.length).headerLen + 4 + message.length := by
    rw [encodeFrame_eq, ← hfield]
    simp only [List.length_cons, List.length_append, length_xorKey, clientMask]
    simp only [List.length_nil]
    omega
  have hmaskLen : maskLen (encodeFrame message) = 4 := by rw [maskLen, hmasked]; rfl
  have hwhole : headerLen (encodeFrame message) + maskLen (encodeFrame message) +
      declaredLen (encodeFrame message) = (encodeFrame message).length := by
    rw [hheader, hmaskLen, hdeclared, hlength]
  have hpayload : payloadBytes (encodeFrame message) = message := by
    unfold payloadBytes
    rw [hmasked, hmaskLen, hheader, hdeclared, ← List.drop_drop, hdrop]
    simp only [ite_true]
    rw [List.take_left' (show clientMask.length = 4 from rfl),
      List.drop_left' (show clientMask.length = 4 from rfl),
      List.take_of_length_le (by simp), xorKey_xorKey]
  have hdelivers : Delivers (encodeFrame message) message :=
    ⟨by rw [hlength]; omega, by rw [encodeFrame_eq]; exact textOrContinuation_text _,
      by rw [hheader, hlength]; omega, hwhole.le, hpayload.symm⟩
  refine ⟨extractPayload_of_delivers hdelivers (by rw [hdeclared]; unfold maxSize; omega),
    by rw [encodeFrame_eq]; rfl, hwhole, fun h1 => ?_, fun h1 h2 => ?_, fun h1 => ?_⟩
  · rw [hlen7, LengthForm.shortest, if_pos h1]
    rfl
  · rw [hlen7, LengthForm.shortest, if_neg (by omega), if_pos h2]
    rfl
  · rw [hlen7, LengthForm.shortest, if_neg (by omega), if_neg (by omega)]
    rfl

theorem encodeFrame_roundTrip_abc :
    extractPayload (encodeFrame [0x61, 0x62, 0x63]) = .ok (some [0x61, 0x62, 0x63]) :=
  (encodeFrame_roundTrip [0x61, 0x62, 0x63] (by decide)).1

end TradingTerminal.WebSocket
