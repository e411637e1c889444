import TradingTerminal.Exchange.WebSocketFrame
import TradingTerminal.Lib.Json
import TradingTerminal.Lib.Text

/-!
# The WebSocket handshake

`AlpacaClient::connect_websocket` with the outcomes of the socket calls it makes, and the calls that
send over the socket it opens. `Accepts` is what the reply to a handshake has to say. SHA-1 and the
serializer of the JSON library are parameters.

The call returns true for a verified reply only, and leaves no socket open when it returns false,
exactly when no socket could be opened to begin with, or when everything goes well
(`sound_connectWebsocket_iff`): every failure after `socket` keeps the descriptor.
-/

namespace TradingTerminal.WebSocket

open Lib

/-- The bytes of an ASCII text. -/
def ascii (s : String) : List UInt8 := s.toList.map fun c => UInt8.ofNat c.toNat

/-! ## The accept key -/

def base64Chars : List UInt8 :=
  ascii "ABCDEFGHIJKLMNOPQRSTUVWXYZabcdefghijklmnopqrstuvwxyz0123456789+/"

/-- The four characters of three bytes. -/
def base64Quad (a b c : UInt8) : List UInt8 :=
  [(a &&& 0xfc) >>> 2, ((a &&& 0x03) <<< 4) + ((b &&& 0xf0) >>> 4),
    ((b &&& 0x0f) <<< 2) + ((c &&& 0xc0) >>> 6), c &&& 0x3f].map fun i =>
    base64Chars.getD i.toNat 0

/-- `base64_encode`, three bytes at a time; `base64EncodeLoop` fills the buffer byte by byte. -/
def base64Encode : List UInt8 → List UInt8
  | a :: b :: c :: rest => base64Quad a b c ++ base64Encode rest
  | [a, b] => (base64Quad a b 0).take 3 ++ ascii "="
  | [a] => (base64Quad a 0 0).take 2 ++ ascii "=="
  | [] => []

/-- `websocket_accept_key`, with the hash as a parameter. -/
def websocketAcceptKey (sha1Hash : List UInt8 → List UInt8) (clientKey : List UInt8) : List UInt8 :=
  base64Encode (sha1Hash (clientKey ++ ascii "258EAFA5-E914-47DA-95CA-C5AB0DC85B11"))

/-! ## The client -/

/-- The URL behind `://`; the position that stands for no match wraps around. -/
def afterScheme (url : List UInt8) : List UInt8 :=
  url.drop ((find (ascii "://") url).elim 2 (· + 3))

/-- A URL with a path. Without one `path.substr(path.find("/"))` throws; the two URLs that the
constructor chooses from have one. -/
structure StreamUrl where
  text : List UInt8
  hasPath : (find (ascii "/") (afterScheme text)).isSome = true
  deriving DecidableEq, Repr

namespace StreamUrl

/-- Where the path begins. -/
def slash (url : StreamUrl) : Nat := (find (ascii "/") (afterScheme url.text)).get url.hasPath

def hostOf (url : StreamUrl) : List UInt8 := (afterScheme url.text).take url.slash

def pathOf (url : StreamUrl) : List UInt8 := (afterScheme url.text).drop url.slash

def paper : StreamUrl := ⟨ascii "wss://stream.data.alpaca.markets/v2/iex", by decide +kernel⟩

def live : StreamUrl := ⟨ascii "wss://stream.data.alpaca.markets/v2/sip", by decide +kernel⟩

example : paper.hostOf = ascii "stream.data.alpaca.markets" ∧ paper.pathOf = ascii "/v2/iex" := by
  decide +kernel

end StreamUrl

/-- The part of `AlpacaClient` that streams, with a log of its `send` calls: the descriptor and the
bytes. -/
structure StreamClient where
  apiKey : String
  secretKey : String
  wsUrl : StreamUrl
  wsSocket : Int := -1
  streaming : Bool := false
  sent : List (Int × List UInt8) := []
  deriving DecidableEq, Repr

namespace StreamClient

/-- The constructor. -/
def new (apiKey secretKey : String) (paper : Bool) : StreamClient where
  apiKey
  secretKey
  wsUrl := if paper then .paper else .live

/-- `send` on the socket of the client. -/
def send (c : StreamClient) (data : List UInt8) : StreamClient :=
  { c with sent := c.sent ++ [(c.wsSocket, data)] }

def sendWebsocketMessage (c : StreamClient) (message : List UInt8) : StreamClient :=
  if c.wsSocket = -1 then c else c.send (encodeFrame message)

/-- The subscriptions to trades, quotes and bars, by the name of the list. -/
def subscribe (dump : Json → List UInt8) (channel : String) (c : StreamClient)
    (symbols : List String) : StreamClient :=
  c.sendWebsocketMessage
    (dump (.object [("action", .string "subscribe"), (channel, .array (symbols.map .string))]))

def subscribeTrades (dump : Json → List UInt8) := subscribe dump "trades"

def subscribeQuotes (dump : Json → List UInt8) := subscribe dump "quotes"

def subscribeBars (dump : Json → List UInt8) := subscribe dump "bars"

def clientKey : List UInt8 := ascii "dGhlIHNhbXBsZSBub25jZQ=="

def handshake (url : StreamUrl) : List UInt8 :=
  ascii "GET " ++ url.pathOf ++ ascii " HTTP/1.1\r\n" ++
    ascii "Host: " ++ url.hostOf ++ ascii "\r\n" ++
    ascii "Upgrade: websocket\r\n" ++
    ascii "Connection: Upgrade\r\n" ++
    ascii "Sec-WebSocket-Key: " ++ clientKey ++ ascii "\r\n" ++
    ascii "Sec-WebSocket-Version: 13\r\n" ++
    ascii "\r\n"

end StreamClient

/-- What the calls of the system library come to: the descriptor of `socket`, if it gives one, the
address of `gethostbyname`, if it finds one, the result of `connect`, and the reply of the server, of
which `recv` stores as much as the buffer takes. -/
structure Dial where
  socket : Option Nat
  server : Option (List UInt8)
  connect : Int
  reply : List UInt8
  deriving DecidableEq, Repr

/-- `std::string(buf)` of a zeroed buffer of 4096 bytes after `recv`. -/
def Dial.buffered (dial : Dial) : List UInt8 := (dial.reply.take 4095).takeWhile (· ≠ 0)

namespace StreamClient

/-- `AlpacaClient::connect_websocket` -/
def connectWebsocket (sha1Hash : List UInt8 → List UInt8) (dump : Json → List UInt8)
    (c : StreamClient) (dial : Dial) : Bool × StreamClient :=
  match dial.socket with
  | none => (false, { c with wsSocket := -1 })
  | some descriptor =>
    let c := { c with wsSocket := descriptor }
    match dial.server with
    | none => (false, c)
    | some _ =>
      if dial.connect < 0 then (false, c)
      else
        -- computed, but never compared with the reply
        let _expectedAccept := websocketAcceptKey sha1Hash clientKey
        let c := c.send (handshake c.wsUrl)
        if (find (ascii "101") dial.buffered).isNone then (false, c)
        else
          let c := { c with streaming := true }
          let auth := .object [("action", .string "auth"), ("key", .string c.apiKey),
            ("secret", .string c.secretKey)]
          (true, c.sendWebsocketMessage (dump auth))

end StreamClient

/-! ## What a reply has to say -/

/-- Space at the ends of a line: blanks, tabs and the carriage return. -/
def lineSpace (b : UInt8) : Bool := b = 32 || b = 9 || b = 13

/-- The lines of a reply, without the space at their ends. -/
def replyLines (reply : List UInt8) : List (List UInt8) := (getlines 10 reply).map (trim lineSpace)

/-- The status code of a status line. -/
def statusCode (line : List UInt8) : Option (List UInt8) :=
  match getlines 32 line with
  | version :: code :: _ => if ascii "HTTP/" <+: version then some code else none
  | _ => none

def toLowerByte (b : UInt8) : UInt8 := if 65 ≤ b ∧ b ≤ 90 then b + 32 else b

/-- The name of a header line, in small letters, and its value. -/
def headerField (line : List UInt8) : Option (List UInt8 × List UInt8) :=
  (find (ascii ":") line).map fun i => ((line.take i).map toLowerByte, trim lineSpace (line.drop (i + 1)))

/-- The first header of a name, among the lines up to the empty one. -/
def header (name : List UInt8) (reply : List UInt8) : Option (List UInt8) :=
  (((replyLines reply).drop 1).takeWhile (· ≠ [])).findSome? fun line =>
    ((headerField line).filter (·.1 = name)).map Prod.snd

/-- The reply switches protocols and proves that it answers this handshake. -/
structure Accepts (acceptKey reply : List UInt8) : Prop where
  statusCode : statusCode ((replyLines reply).headD []) = some (ascii "101")
  acceptHeader : header (ascii "sec-websocket-accept") reply = some acceptKey

instance (acceptKey reply : List UInt8) : Decidable (Accepts acceptKey reply) :=
  decidable_of_iff (statusCode ((replyLines reply).headD []) = some (ascii "101") ∧
      header (ascii "sec-websocket-accept") reply = some acceptKey)
    ⟨fun h => ⟨h.1, h.2⟩, fun h => ⟨h.statusCode, h.acceptHeader⟩⟩

namespace StreamClient

/-- An attempt that succeeds only on a verified reply, and leaves nothing behind when it fails. -/
structure SoundAttempt (acceptKey : List UInt8) (dial : Dial) (result : Bool × StreamClient) :
    Prop where
  verified : result.1 = true → Accepts acceptKey dial.reply
  closed : result.1 = false → result.2.wsSocket = -1
  stopped : result.1 = false → result.2.streaming = false
  silent : result.1 = false → ∀ message, (result.2.sendWebsocketMessage message).sent = result.2.sent

section Attempt

variable {sha1Hash : List UInt8 → List UInt8} {dump : Json → List UInt8} {c : StreamClient}
  {dial : Dial}

theorem sendWebsocketMessage_of_closed (h : c.wsSocket = -1) (message : List UInt8) :
    c.sendWebsocketMessage message = c :=
  if_pos h

/-- A failure with the socket open leaves it so. -/
theorem not_sound_of_open {acceptKey : List UInt8} {result : Bool × StreamClient} {descriptor : Nat}
    (hfalse : result.1 = false) (hopen : result.2.wsSocket = descriptor) :
    ¬ SoundAttempt acceptKey dial result := by
  intro h
  have hclosed := h.closed hfalse
  omega

/-- **The handshake.** For any outcome of the calls and any reply, the attempt is sound if and only
if `socket` fails while nothing streams, or all calls succeed, `101` occurs in what was read of the
reply, and the reply is an acceptance. -/
theorem sound_connectWebsocket_iff (sha1Hash : List UInt8 → List UInt8) (dump : Json → List UInt8)
    (c : StreamClient) (dial : Dial) :
    SoundAttempt (websocketAcceptKey sha1Hash clientKey) dial
        (c.connectWebsocket sha1Hash dump dial) ↔
      dial.socket = none ∧ c.streaming = false ∨
        dial.socket.isSome = true ∧ dial.server.isSome = true ∧ 0 ≤ dial.connect ∧
          ascii "101" <:+: dial.buffered ∧
          Accepts (websocketAcceptKey sha1Hash clientKey) dial.reply := by
  unfold connectWebsocket
  cases hsocket : dial.socket with
  | none =>
    simp only [true_and, Option.isSome_none, Bool.false_eq_true, false_and, or_false]
    constructor
    · intro h
      exact h.stopped rfl
    · intro hstreaming
      exact ⟨by simp, fun _ => rfl, fun _ => hstreaming, fun _ message => by
        rw [sendWebsocketMessage_of_closed rfl]⟩
  | some descriptor =>
    simp only [reduceCtorEq, false_and, false_or, Option.isSome_some, true_and]
    cases hserver : dial.server with
    | none => exact iff_of_false (not_sound_of_open rfl rfl) (by simp)
    | some address =>
      dsimp only
      by_cases hconnect : dial.connect < 0
      · rw [if_pos hconnect]
        exact iff_of_false (not_sound_of_open rfl rfl) fun h => absurd h.2.1 (not_le.2 hconnect)
      · rw [if_neg hconnect]
        by_cases hfound : (find (ascii "101") dial.buffered).isNone = true
        · rw [if_pos hfound]
          refine iff_of_false (not_sound_of_open rfl rfl) fun h => ?_
          have hsome := find_isSome_iff.2 h.2.2.1
          rw [Option.isNone_iff_eq_none] at hfound
          rw [hfound] at hsome
          cases hsome
        · rw [if_neg hfound]
          have hinfix : ascii "101" <:+: dial.buffered := by
            rw [← find_isSome_iff, Option.isSome_iff_ne_none]
            simpa using hfound
          constructor
          · intro h
            exact ⟨rfl, not_lt.1 hconnect, hinfix, h.verified rfl⟩
          · rintro ⟨-, -, -, haccepts⟩
            exact ⟨fun _ => haccepts, by simp, by simp, by simp⟩

end Attempt

/-- The host is not found. -/
def unknownHost : Dial := { socket := some 5, server := none, connect := 0, reply := [] }

/-- The server does not know the path, and says so in 101 bytes. -/
def notFoundReply : Dial where
  socket := some 5
  server := some [10, 0, 0, 1]
  connect := 0
  reply := ascii "HTTP/1.1 404 Not Found\r\nContent-Length: 101\r\n\r\n"

/-- After the failed lookup a subscription is sent over the socket left open, and the refusal is
taken for an acceptance. -/
theorem unknownHost_notFound_not_sound :
    let c := new "key" "secret" true
    let sha1Hash : List UInt8 → List UInt8 := fun _ => []
    let dump : Json → List UInt8 := fun _ => []
    (subscribeTrades dump (c.connectWebsocket sha1Hash dump unknownHost).2 ["AAPL"]).sent =
        [(5, encodeFrame [])] ∧
      ¬ SoundAttempt (websocketAcceptKey sha1Hash clientKey) unknownHost
        (c.connectWebsocket sha1Hash dump unknownHost) ∧
      (c.connectWebsocket sha1Hash dump notFoundReply).1 = true ∧
      ¬ SoundAttempt (websocketAcceptKey sha1Hash clientKey) notFoundReply
        (c.connectWebsocket sha1Hash dump notFoundReply) := by
  intro c sha1Hash dump
  have htrue : (c.connectWebsocket sha1Hash dump notFoundReply).1 = true := by decide +kernel
  refine ⟨by decide +kernel, fun h => ?_, htrue, fun h => ?_⟩
  · exact absurd (h.closed (by decide +kernel)) (by decide +kernel)
  · exact absurd (h.verified htrue) (by decide +kernel)

end StreamClient

end TradingTerminal.WebSocket
