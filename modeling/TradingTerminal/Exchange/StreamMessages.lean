import TradingTerminal.Core.Types
import TradingTerminal.Exchange.WebSocketStream
import TradingTerminal.Lib.Json
import TradingTerminal.Lib.UntilError

/-!
# The messages of the market data stream

The second half of `AlpacaClient::handle_websocket_message`: the payload is parsed, and each message
of the array goes to the callback of its kind. An exception of the JSON library or of a callback
leaves the loop over the array and is caught, so that what comes after the message in the same frame
is lost. `msg[key]` on a constant object is undefined when the key is missing; the model stops there.

The JSON library is a parameter, and so is its parser, `none` where it throws. A callback is a flag
that says whether it is set; how it comes back is given for each message of a frame, so that it may
depend on anything. What it throws are standard exceptions. The ticks handed to the callbacks are
collected. `streamThread_iff` says when every trade and quote of a row of frames reaches its callback.
-/

namespace TradingTerminal.WebSocket

open Lib

/-- What can go wrong with a message: an exception of the JSON library, or a missing key. -/
inductive MessageFault where
  | json (e : JsonError)
  | missingKey
  deriving DecidableEq, Repr

/-- What ends the loop over the messages. -/
inductive LoopFault where
  | message (fault : MessageFault)
  | callback
  deriving DecidableEq, Repr

/-- Which callbacks are set. -/
structure Callbacks where
  trade : Bool
  quote : Bool

/-- How a callback comes back. -/
inductive Outcome where
  | returns
  | throws
  deriving DecidableEq, Repr

/-- A tick, with the callback it is handed to. -/
inductive Delivery where
  | trade (tick : Tick)
  | quote (tick : Tick)
  deriving DecidableEq, Repr

section Reading

variable (lib : JsonLibrary)

/-- `msg[key]` on an object. -/
def field (msg : Json) (key : String) : Except MessageFault Json :=
  match msg.find key with
  | some v => .ok v
  | none => .error .missingKey

def toText (v : Json) : Except MessageFault String := (lib.getString v).mapError .json

def toDouble (v : Json) : Except MessageFault ℚ := (lib.getDouble v).mapError .json

def toUInt64 (v : Json) : Except MessageFault UInt64 := (lib.getUInt64 v).mapError .json

def tradeTick (msg : Json) : Except MessageFault Tick := do
  let symbol ← toText lib (← field msg "S")
  let price ← toDouble lib (← field msg "p")
  let volume ← toDouble lib (← field msg "s")
  let timestamp ← toUInt64 lib (← field msg "t")
  return { symbol, price, volume, timestamp, bid := price * (9999 / 10000),
           ask := price * (10001 / 10000) }

def quoteTick (msg : Json) : Except MessageFault Tick := do
  let symbol ← toText lib (← field msg "S")
  let bid ← toDouble lib (← field msg "bp")
  let ask ← toDouble lib (← field msg "ap")
  let _bidSize ← toDouble lib (← field msg "bs")
  let _askSize ← toDouble lib (← field msg "as")
  let timestamp ← toUInt64 lib (← field msg "t")
  return { symbol, bid, ask, price := (bid + ask) / 2, timestamp }

/-- The body of the loop over the array up to the call of a callback. -/
def delivery (callbacks : Callbacks) (msg : Json) : Except MessageFault (Option Delivery) := do
  let T ← (lib.value msg "T" "").mapError .json
  if T = "t" && callbacks.trade then return some (.trade (← tradeTick lib msg))
  else if T = "q" && callbacks.quote then return some (.quote (← quoteTick lib msg))
  else return none

/-- The body of the loop over the array; `outcome` tells how the callback comes back that is called
for the message at an index. -/
def dispatch (callbacks : Callbacks) (outcome : Nat → Outcome) (x : Json × Nat) :
    Option Delivery × Option LoopFault :=
  match delivery lib callbacks x.1 with
  | .error fault => (none, some (.message fault))
  | .ok none => (none, none)
  | .ok (some d) => (some d, if outcome x.2 = .throws then some .callback else none)

/-- What a message alone hands to a callback. -/
def handed (callbacks : Callbacks) (msg : Json) : Option Delivery :=
  match delivery lib callbacks msg with
  | .error _ => none
  | .ok d => d

end Reading

/-- What stops the thread. -/
inductive StreamFault where
  | frame (fault : Fault)
  | missingKey
  deriving DecidableEq, Repr

/-- The array in a payload; a payload that does not parse or is no array holds no messages. -/
def messagesOf (parse : List UInt8 → Option Json) (payload : List UInt8) : List Json :=
  match parse payload with
  | some (.array items) => items
  | _ => []

section Stream

variable (lib : JsonLibrary) (parse : List UInt8 → Option Json) (callbacks : Callbacks)

/-- The `try` block of `handle_websocket_message`. -/
def handlePayload (payload : List UInt8) (outcome : Nat → Outcome) :
    List Delivery × Option StreamFault :=
  match untilError (dispatch lib callbacks outcome) (messagesOf parse payload).zipIdx with
  | (deliveries, some (.message .missingKey)) => (deliveries, some .missingKey)
  | (deliveries, _) => (deliveries, none)

def handleWebsocketMessage (message : List UInt8) (outcome : Nat → Outcome) :
    List Delivery × Option StreamFault :=
  match extractPayload message with
  | .error fault => ([], some (.frame fault))
  | .ok none => ([], none)
  | .ok (some payload) => handlePayload lib parse callbacks payload outcome

/-- `websocket_thread` over a row of `recv` results: what the callbacks are handed, and what stopped
the thread, if anything did. -/
def streamThread : List (List UInt8 × (Nat → Outcome)) → List Delivery × Option StreamFault
  | [] => ([], none)
  | (message, outcome) :: messages =>
    match handleWebsocketMessage lib parse callbacks message outcome with
    | (deliveries, some fault) => (deliveries, some fault)
    | (deliveries, none) =>
      (deliveries ++ (streamThread messages).1, (streamThread messages).2)

/-- The messages of a payload come through: no message that goes to a callback stands after one that
throws or whose callback throws, and what leaves the loop, if anything, is an exception. -/
structure Intact (outcome : Nat → Outcome) (batch : List Json) : Prop where
  undisturbed : Undisturbed (dispatch lib callbacks outcome) batch.zipIdx
  defined : ∀ pre x post, batch.zipIdx = pre ++ x :: post →
    (∀ y ∈ pre, (dispatch lib callbacks outcome y).2 = none) →
    (dispatch lib callbacks outcome x).2 ≠ some (.message .missingKey)

end Stream

variable {lib : JsonLibrary} {parse : List UInt8 → Option Json} {callbacks : Callbacks}
  {outcome : Nat → Outcome}

theorem dispatch_fst (x : Json × Nat) :
    (dispatch lib callbacks outcome x).1 = handed lib callbacks x.1 := by
  unfold dispatch handed
  rcases delivery lib callbacks x.1 with _ | _ | _ <;> rfl

/-- What the messages of a batch hand over does not depend on their places. -/
theorem filterMap_dispatch (outcome : Nat → Outcome) (batch : List Json) :
    batch.zipIdx.filterMap (fun x => (dispatch lib callbacks outcome x).1) =
      batch.filterMap (handed lib callbacks) := by
  have hfst : (fun x => (dispatch lib callbacks outcome x).1) = handed lib callbacks ∘ Prod.fst :=
    funext dispatch_fst
  rw [hfst, ← List.filterMap_map, List.zipIdx_map_fst]

theorem handlePayload_fst (payload : List UInt8) :
    (handlePayload lib parse callbacks payload outcome).1 =
      (untilError (dispatch lib callbacks outcome) (messagesOf parse payload).zipIdx).1 := by
  unfold handlePayload
  rcases untilError (dispatch lib callbacks outcome) (messagesOf parse payload).zipIdx with
    ⟨deliveries, _ | ⟨_ | _⟩ | _⟩ <;> rfl

theorem handlePayload_snd (payload : List UInt8) :
    (handlePayload lib parse callbacks payload outcome).2 = none ↔
      (untilError (dispatch lib callbacks outcome) (messagesOf parse payload).zipIdx).2 ≠
        some (.message .missingKey) := by
  unfold handlePayload
  rcases untilError (dispatch lib callbacks outcome) (messagesOf parse payload).zipIdx with
    ⟨deliveries, _ | ⟨_ | _⟩ | _⟩ <;> simp

theorem handlePayload_iff (payload : List UInt8) :
    handlePayload lib parse callbacks payload outcome =
        ((messagesOf parse payload).filterMap (handed lib callbacks), none) ↔
      Intact lib callbacks outcome (messagesOf parse payload) := by
  rw [Prod.ext_iff, handlePayload_fst, handlePayload_snd, ← filterMap_dispatch outcome,
    untilError_fst_iff]
  constructor
  · rintro ⟨hundisturbed, hdefined⟩
    refine ⟨hundisturbed, fun pre x post hbatch hpre hx => hdefined ?_⟩
    exact (untilError_snd _ _).2 ⟨pre, x, post, hbatch, hpre, hx⟩
  · rintro ⟨hundisturbed, hdefined⟩
    refine ⟨hundisturbed, fun hmissing => ?_⟩
    obtain ⟨pre, x, post, hbatch, hpre, hx⟩ := (untilError_snd _ _).1 hmissing
    exact hdefined pre x post hbatch hpre hx

theorem handleWebsocketMessage_bytes (frame : ServerFrame) :
    handleWebsocketMessage lib parse callbacks frame.bytes outcome =
      handlePayload lib parse callbacks frame.payload outcome := by
  rw [handleWebsocketMessage, frame.extractPayload_bytes]

/-- A frame that arrives, and how the callbacks come back that are called for its messages. -/
abbrev Arrival : Type := ServerFrame × (Nat → Outcome)

def Arrival.received (arrival : Arrival) : List UInt8 × (Nat → Outcome) :=
  (arrival.1.bytes, arrival.2)

/-- The messages of a row of frames. -/
def messagesIn (parse : List UInt8 → Option Json) (arrivals : List Arrival) : List Json :=
  arrivals.flatMap fun arrival => messagesOf parse arrival.1.payload

theorem streamThread_cons (arrival : Arrival) (arrivals : List Arrival) :
    streamThread lib parse callbacks ((arrival :: arrivals).map Arrival.received) =
      let first := handlePayload lib parse callbacks arrival.1.payload arrival.2
      let rest := streamThread lib parse callbacks (arrivals.map Arrival.received)
      if first.2 = none then (first.1 ++ rest.1, rest.2) else first := by
  rw [List.map_cons, Arrival.received, streamThread, handleWebsocketMessage_bytes]
  rcases handlePayload lib parse callbacks arrival.1.payload arrival.2 with
    ⟨deliveries, _ | fault⟩ <;> rfl

theorem handlePayload_sublist (payload : List UInt8) :
    (handlePayload lib parse callbacks payload outcome).1.Sublist
      ((messagesOf parse payload).filterMap (handed lib callbacks)) := by
  rw [handlePayload_fst, ← filterMap_dispatch outcome]
  exact (untilError_isPrefix _).sublist

/-- The callbacks are handed nothing that was not sent, and nothing twice or out of order. -/
theorem streamThread_sublist (arrivals : List Arrival) :
    (streamThread lib parse callbacks (arrivals.map Arrival.received)).1.Sublist
      ((messagesIn parse arrivals).filterMap (handed lib callbacks)) := by
  induction arrivals with
  | nil => exact List.Sublist.refl _
  | cons arrival arrivals ih =>
    rw [streamThread_cons, messagesIn, List.flatMap_cons, List.filterMap_append]
    have hfirst : (handlePayload lib parse callbacks arrival.1.payload arrival.2).1.Sublist _ :=
      handlePayload_sublist arrival.1.payload
    dsimp only
    split
    · exact hfirst.append ih
    · exact hfirst.trans (List.sublist_append_left _ _)

/-- The message of a trade. -/
def tradeMessage (price : ℚ) (time : Json) : Json :=
  .object [("T", .string "t"), ("S", .string "AAPL"), ("p", .number price), ("s", .number 1),
    ("t", time)]

/-- A trade whose time is a text throws, and the trade behind it is lost. -/
example :
    untilError (dispatch .documented ⟨true, false⟩ fun _ => .returns)
      [tradeMessage 150 (.string "2024-01-02T15:04:05Z"), tradeMessage 151 (.number 7)].zipIdx =
        ([], some (.message (.json .typeError302))) := rfl

/-- A callback that throws has its trade, and the one behind it is lost. -/
example :
    (untilError (dispatch .documented ⟨true, false⟩ fun i => if i = 0 then .throws else .returns)
      [tradeMessage 150 (.number 7), tradeMessage 151 (.number 7)].zipIdx).1.length = 1 := by
  decide +kernel

end TradingTerminal.WebSocket
