import TradingTerminal.Exchange.WebSocketFrame
import TradingTerminal.Lib.RecvLoop

/-!
# The market data stream

`AlpacaClient::websocket_thread` gives what one `recv` returns to `handle_websocket_message`, which
looks at the frame at its start and at nothing else. `ServerFrame` is an unmasked, final text frame
with a length field that declares its payload; a server writes the shortest one. The payloads handed
to the JSON parser are those of the frames exactly when every `recv` returns one frame
(`websocketThread_iff_aligned`).
-/

namespace TradingTerminal.WebSocket

open Lib

/-- An unmasked, final text frame. -/
structure ServerFrame where
  payload : List UInt8
  form : LengthForm
  fits : form.Fits payload.length

namespace ServerFrame

def bytes (frame : ServerFrame) : List UInt8 :=
  0x81 :: (frame.form.field false frame.payload.length ++ frame.payload)

/-- The frame has the shortest length field for its payload. -/
def Minimal (frame : ServerFrame) : Prop := frame.form = .shortest frame.payload.length

theorem length_bytes (frame : ServerFrame) :
    frame.bytes.length = frame.form.headerLen + frame.payload.length := by
  rw [bytes, List.length_cons, List.length_append,
    ← LengthForm.length_field false frame.form frame.payload.length]
  omega

/-- A frame that arrives alone is handed over. -/
theorem extractPayload_bytes (frame : ServerFrame) :
    extractPayload frame.bytes = .ok (some frame.payload) := by
  obtain ⟨hmasked, -, hheader, hdeclared⟩ := declares_field 0x81 false frame.fits frame.payload
  have hdrop := drop_headerLen 0x81 false frame.form frame.payload.length frame.payload
  rw [show (0x81 :: (frame.form.field false frame.payload.length ++ frame.payload)) = frame.bytes
    from rfl] at hmasked hheader hdeclared hdrop
  have hmaskLen : maskLen frame.bytes = 0 := by rw [maskLen, hmasked]; rfl
  have htwo : 2 ≤ frame.form.headerLen := by cases frame.form <;> decide
  have hlt : frame.payload.length < 2 ^ 63 := by
    have := frame.fits
    cases hform : frame.form <;> rw [hform] at this <;> unfold LengthForm.Fits at this <;> omega
  have hpayload : payloadBytes frame.bytes = frame.payload := by
    unfold payloadBytes
    rw [hmasked, hmaskLen, hheader, hdeclared, Nat.add_zero, hdrop]
    simp
  refine extractPayload_of_delivers
    ⟨by rw [length_bytes]; omega, textOrContinuation_text _, by rw [hheader, length_bytes]; omega,
      by rw [hheader, hmaskLen, hdeclared, length_bytes, Nat.add_zero], hpayload.symm⟩ ?_
  rw [hdeclared]
  unfold maxSize
  omega

end ServerFrame

/-- `AlpacaClient::websocket_thread`: the payloads handed to the JSON parser over a row of `recv`
results, and the fault that ended it, if any. -/
def websocketThread : List (List UInt8) → List (List UInt8) × Option Fault :=
  recvLoop extractPayload

/-- A read that does not fault stays within the string. -/
theorem readBytes_ok {message : List UInt8} {i n : Nat} {bs : List UInt8}
    (h : readBytes message i n = .ok bs) : bs.length = n ∧ (n = 0 ∨ i + n ≤ message.length) := by
  induction n generalizing i bs with
  | zero =>
    obtain rfl := Except.ok.inj h
    exact ⟨rfl, Or.inl rfl⟩
  | succ n ih =>
    rw [readBytes] at h
    cases hb : byteAt message i with
    | error f => rw [hb] at h; cases h
    | ok b =>
      cases hbs : readBytes message (i + 1) n with
      | error f => rw [hb, hbs] at h; cases h
      | ok bs' =>
        rw [hb, hbs] at h
        obtain rfl := Except.ok.inj h
        obtain ⟨hlen, hbound⟩ := ih hbs
        have hi : i < message.length := by
          by_contra hcon
          rw [byteAt, List.getElem?_eq_none (by omega)] at hb
          cases hb
        exact ⟨by rw [List.length_cons, hlen], Or.inr (by omega)⟩

/-- A payload that is read is no longer than declared and lies after the header. -/
theorem readPayload_ok {message payload : List UInt8} {isMasked : Bool} {pos payloadLen : Nat}
    (hpos : pos ≤ message.length)
    (h : readPayload message isMasked pos payloadLen = .ok payload) :
    payload.length ≤ payloadLen ∧ pos + payload.length ≤ message.length := by
  unfold readPayload at h
  cases isMasked with
  | true =>
    simp only [ite_true] at h
    cases hmk : readBytes message pos 4 with
    | error f => rw [hmk] at h; cases h
    | ok mk =>
      cases hr : reserve payloadLen with
      | error f => rw [hmk, hr] at h; cases h
      | ok u =>
        cases hbs : readBytes message (pos + 4) payloadLen with
        | error f => rw [hmk, hr, hbs] at h; cases h
        | ok bs =>
          rw [hmk, hr, hbs] at h
          obtain rfl := Except.ok.inj h
          obtain ⟨hlen, hbound⟩ := readBytes_ok hbs
          rw [length_xorKey, hlen]
          omega
  | false =>
    simp only [Bool.false_eq_true, ite_false, substr] at h
    rw [if_neg (by omega)] at h
    obtain rfl := Except.ok.inj h
    rw [List.length_take, List.length_drop]
    omega

/-- No header declares a length with fewer bytes than the shortest form takes. -/
theorem shortest_headerLen_le {message : List UInt8} {n : Nat} (h : n ≤ declaredLen message) :
    (LengthForm.shortest n).headerLen ≤ headerLen message := by
  have h7 := len7_lt message
  have h2 := ofBE_take_lt (message.drop 2) 2
  unfold declaredLen at h
  unfold headerLen LengthForm.shortest
  by_cases h126 : len7 message = 126
  · rw [if_pos h126] at h ⊢
    split
    · decide
    · rw [if_pos (by omega)]
      decide
  · by_cases h127 : len7 message = 127
    · rw [if_neg h126, if_pos h127]
      split
      · decide
      · split <;> decide
    · rw [if_neg h126, if_neg h127] at h ⊢
      rw [if_pos (by omega)]
      decide

/-- A payload, however it was framed, takes up at least the bytes of its shortest frame. -/
theorem shortest_le_of_extractPayload (chunk payload : List UInt8)
    (h : extractPayload chunk = .ok (some payload)) :
    (LengthForm.shortest payload.length).headerLen + payload.length ≤ chunk.length := by
  rw [extractPayload_eq] at h
  split at h
  · next hpass =>
    cases hread : readPayload chunk (masked chunk) (headerLen chunk) (declaredLen chunk) with
    | error f => rw [hread] at h; cases h
    | ok payload' =>
      rw [hread] at h
      obtain rfl := Option.some.inj (Except.ok.inj h)
      obtain ⟨hlen, hbound⟩ := readPayload_ok hpass.2.2.1 hread
      have hheader := shortest_headerLen_le hlen
      omega
  · cases h

/-- **The stream and its segmentation.** However the bytes of a row of text frames are cut into
chunks that fit the receive buffer: chunks that are one frame each are handed over payload by payload
without a fault, and for frames with shortest length fields nothing else hands over exactly their
payloads. -/
theorem websocketThread_iff_aligned (frames : List ServerFrame) (chunks : List (List UInt8))
    (hcut : chunks.flatten = (frames.map ServerFrame.bytes).flatten)
    (hchunk : ∀ chunk ∈ chunks, chunk ≠ [] ∧ chunk.length ≤ 65535) :
    (chunks = frames.map ServerFrame.bytes →
        websocketThread chunks = (frames.map ServerFrame.payload, none)) ∧
      ((∀ frame ∈ frames, frame.Minimal) →
        ((websocketThread chunks).1 = frames.map ServerFrame.payload ↔
          chunks = frames.map ServerFrame.bytes)) := by
  have haligned : chunks = frames.map ServerFrame.bytes →
      websocketThread chunks = (frames.map ServerFrame.payload, none) := by
    rintro rfl
    exact recvLoop_map fun frame _ => frame.extractPayload_bytes
  refine ⟨haligned, fun hmin => ⟨fun hout => ?_, fun h => by rw [haligned h]⟩⟩
  -- the payloads cost as many bytes as were received, so no chunk can hold more or less than one
  have hcosts : (frames.map ServerFrame.payload).map
      (fun payload => (LengthForm.shortest payload.length).headerLen + payload.length) =
      (frames.map ServerFrame.bytes).map List.length := by
    rw [List.map_map, List.map_map]
    refine List.map_congr_left fun frame hframe => ?_
    rw [Function.comp_apply, Function.comp_apply, frame.length_bytes, hmin frame hframe]
  have hlengths := recvLoop_aligned shortest_le_of_extractPayload (fun c hc => (hchunk c hc).1)
    (show (((websocketThread chunks).1.map _).sum) = _ by
      rw [hout, hcosts, ← List.length_flatten, ← List.length_flatten, hcut])
  rw [show recvLoop extractPayload chunks = websocketThread chunks from rfl, hout, hcosts] at hlengths
  exact List.eq_iff_flatten_eq.2 ⟨hcut, hlengths⟩

section Coalesced

def hiFrame : ServerFrame := ⟨[0x68, 0x69], .short, show 2 ≤ 125 by decide⟩

def yoFrame : ServerFrame := ⟨[0x79, 0x6F], .short, show 2 ≤ 125 by decide⟩

/-- Of two frames that one `recv` returns together, the second is lost. -/
theorem coalesced_loses_frame :
    [hiFrame.bytes ++ yoFrame.bytes].flatten = ([hiFrame, yoFrame].map ServerFrame.bytes).flatten ∧
      (∀ chunk ∈ [hiFrame.bytes ++ yoFrame.bytes], chunk ≠ [] ∧ chunk.length ≤ 65535) ∧
      (websocketThread [hiFrame.bytes ++ yoFrame.bytes]).1 = [hiFrame.payload] ∧
      (websocketThread [hiFrame.bytes ++ yoFrame.bytes]).1 ≠
        [hiFrame, yoFrame].map ServerFrame.payload := by
  refine ⟨by decide, by decide, by decide +kernel, by decide +kernel⟩

theorem separate_keeps_frames :
    websocketThread ([hiFrame, yoFrame].map ServerFrame.bytes) =
      ([hiFrame, yoFrame].map ServerFrame.payload, none) :=
  (websocketThread_iff_aligned [hiFrame, yoFrame] _ rfl (by decide)).1 rfl

end Coalesced

end TradingTerminal.WebSocket
