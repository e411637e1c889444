import TradingTerminal.Exchange.Base64Encode
import TradingTerminal.Exchange.WebSocketHandshake

/-!
# The repository's own WebSocket server

`SimpleWebSocket::handle_handshake` of `web/websocket.hpp` answers every request that asks for an
upgrade with one and the same accept key, the sample key of the protocol's description in the place
of the hash of a key. No client that checks the key can take the answer for an acceptance
(`answer_accepted_iff`); the client of this repository, which does not check, connects
(`ownClient_connects`).
-/

namespace TradingTerminal.WebSocket

open Lib

namespace SimpleWebSocket

/-- What handling a request does that has no defined result: the string of a full buffer is looked
for past its end. -/
inductive HandshakeFault where
  | unterminated
  deriving DecidableEq

/-- `std::string request(buffer)`, after a `read` into a zeroed buffer of 1024 bytes. -/
def requestOf (received : List UInt8) : Except HandshakeFault (List UInt8) :=
  if 1024 ≤ received.length ∧ 0 ∉ received.take 1024 then .error .unterminated
  else .ok ((received.take 1024).takeWhile (· ≠ 0))

def response : List UInt8 :=
  ascii "HTTP/1.1 101 Switching Protocols\r\n" ++
    ascii "Upgrade: websocket\r\n" ++
    ascii "Connection: Upgrade\r\n" ++
    ascii "Sec-WebSocket-Accept: dGhlIHNhbXBsZSBub25jZQ==\r\n" ++
    ascii "\r\n"

/-- `handle_handshake`: what is written to the client, if anything. -/
def handleHandshake (received : List UInt8) : Except HandshakeFault (Option (List UInt8)) := do
  let request ← requestOf received
  return if (find (ascii "Upgrade: websocket") request).isSome then some response else none

/-- An answer is the response, and the request asked for an upgrade. -/
theorem handleHandshake_answer {received reply : List UInt8}
    (h : handleHandshake received = .ok (some reply)) : reply = response := by
  unfold handleHandshake at h
  cases hrequest : requestOf received with
  | error fault =>
    rw [hrequest] at h
    cases h
  | ok request =>
    rw [hrequest] at h
    change Except.ok (if _ then _ else _) = _ at h
    split at h
    · cases h
      rfl
    · cases h

/-! ## A client that checks -/

theorem accepts_response_iff (acceptKey : List UInt8) :
    Accepts acceptKey response ↔ acceptKey = StreamClient.clientKey := by
  have hstatus : statusCode ((replyLines response).headD []) = some (ascii "101") := by
    decide +kernel
  have hheader : header (ascii "sec-websocket-accept") response = some StreamClient.clientKey := by
    decide +kernel
  constructor
  · intro h
    have hkey := h.acceptHeader
    rw [hheader] at hkey
    exact (Option.some.inj hkey).symm
  · rintro rfl
    exact ⟨hstatus, hheader⟩

/-- **What the answer proves.** Whatever request it answers, a client with any key finds its accept
key in the answer exactly if the key hashes to the sixteen bytes `the sample nonce`; a hash of
another length, such as the twenty bytes of SHA-1, never does. -/
theorem answer_accepted_iff (sha1Hash : List UInt8 → List UInt8) (key received : List UInt8)
    {reply : List UInt8} (h : handleHandshake received = .ok (some reply)) :
    Accepts (websocketAcceptKey sha1Hash key) reply ↔
      sha1Hash (key ++ ascii "258EAFA5-E914-47DA-95CA-C5AB0DC85B11") = ascii "the sample nonce" := by
  rw [handleHandshake_answer h, accepts_response_iff]
  have hsample : base64Encode (ascii "the sample nonce") = StreamClient.clientKey := by
    decide +kernel
  unfold websocketAcceptKey
  constructor
  · intro hkey
    have hdecoded := (base64Encode_encodes
      (sha1Hash (key ++ ascii "258EAFA5-E914-47DA-95CA-C5AB0DC85B11"))).decode
    rw [hkey, ← hsample, (base64Encode_encodes _).decode] at hdecoded
    exact (Option.some.inj hdecoded).symm
  · intro hhash
    rw [hhash, hsample]

/-! ## The client of this repository -/

/-- A text without zero bytes, shorter than the buffer, arrives as it is. -/
theorem requestOf_of_short {request : List UInt8} (hshort : request.length < 1024)
    (hzero : 0 ∉ request) : requestOf request = .ok request := by
  have htake : request.take 1024 = request := List.take_of_length_le (by omega)
  rw [requestOf, if_neg (by omega), htake, List.takeWhile_eq_self_iff.2]
  intro b hb
  simp only [ne_eq, decide_not, Bool.not_eq_true', decide_eq_false_iff_not]
  rintro rfl
  exact hzero hb

theorem upgrade_infix_handshake (url : StreamUrl) :
    ascii "Upgrade: websocket" <:+: StreamClient.handshake url := by
  refine ⟨ascii "GET " ++ url.pathOf ++ ascii " HTTP/1.1\r\n" ++
    ascii "Host: " ++ url.hostOf ++ ascii "\r\n",
    ascii "\r\n" ++ ascii "Connection: Upgrade\r\n" ++
      ascii "Sec-WebSocket-Key: " ++ StreamClient.clientKey ++ ascii "\r\n" ++
      ascii "Sec-WebSocket-Version: 13\r\n" ++ ascii "\r\n", ?_⟩
  have hline : ascii "Upgrade: websocket" ++ ascii "\r\n" = ascii "Upgrade: websocket\r\n" := by
    decide
  unfold StreamClient.handshake
  simp only [List.append_assoc, ← hline]

theorem zero_notMem_handshake {url : StreamUrl} (hurl : 0 ∉ url.text) :
    0 ∉ StreamClient.handshake url := by
  have hbehind : 0 ∉ afterScheme url.text := fun h => hurl (List.mem_of_mem_drop h)
  have hhost : 0 ∉ url.hostOf := fun h => hbehind (List.mem_of_mem_take h)
  have hpath : 0 ∉ url.pathOf := fun h => hbehind (List.mem_of_mem_drop h)
  have hget : 0 ∉ ascii "GET " ∧ 0 ∉ ascii " HTTP/1.1\r\n" ∧ 0 ∉ ascii "Host: " ∧
      0 ∉ ascii "\r\n" := by
    decide +kernel
  have hfields : 0 ∉ ascii "Upgrade: websocket\r\n" ∧ 0 ∉ ascii "Connection: Upgrade\r\n" ∧
      0 ∉ ascii "Sec-WebSocket-Key: " ∧ 0 ∉ StreamClient.clientKey ∧
      0 ∉ ascii "Sec-WebSocket-Version: 13\r\n" := by
    decide +kernel
  obtain ⟨hget, hhttp, hhostName, hend⟩ := hget
  obtain ⟨hupgrade, hconnection, hkeyName, hkey, hversion⟩ := hfields
  unfold StreamClient.handshake
  repeat' refine List.not_mem_append ?_ ?_
  exacts [hget, hpath, hhttp, hhostName, hhost, hend, hupgrade, hconnection, hkeyName, hkey, hend,
    hversion, hend]

/-- **The two of this repository.** The client connects to the server of this repository, whatever
the URL with a path and without a zero byte that its handshake is made from, as long as the server's
buffer holds it; yet the answer it connects on is no acceptance of its key. -/
theorem ownClient_connects (sha1Hash : List UInt8 → List UInt8)
    (hsha1 : ∀ message, (sha1Hash message).length = 20) (dump : Json → List UInt8)
    (c : StreamClient) (hurl : 0 ∉ c.wsUrl.text)
    (hshort : (StreamClient.handshake c.wsUrl).length < 1024) (descriptor : Nat)
    (address : List UInt8) :
    ∃ reply, handleHandshake (StreamClient.handshake c.wsUrl) = .ok (some reply) ∧
      let dial : Dial := { socket := some descriptor, server := some address, connect := 0, reply }
      (c.connectWebsocket sha1Hash dump dial).1 = true ∧
        ¬ Accepts (websocketAcceptKey sha1Hash StreamClient.clientKey) reply := by
  have hanswer : handleHandshake (StreamClient.handshake c.wsUrl) = .ok (some response) := by
    unfold handleHandshake
    rw [requestOf_of_short hshort (zero_notMem_handshake hurl)]
    change Except.ok (if _ then _ else _) = _
    rw [if_pos (find_isSome_iff.2 (upgrade_infix_handshake c.wsUrl))]
  refine ⟨response, hanswer, ?_, fun haccepts => ?_⟩
  · have hfound : (find (ascii "101") ((response.take 4095).takeWhile (· ≠ 0))).isNone = false := by
      decide +kernel
    unfold StreamClient.connectWebsocket
    change (if (0 : Int) < 0 then _ else if (find (ascii "101")
      ((response.take 4095).takeWhile (· ≠ 0))).isNone then _ else _ : Bool × StreamClient).1 = true
    rw [if_neg (lt_irrefl _), hfound]
    rfl
  · rw [accepts_response_iff] at haccepts
    have hlength := (websocketAcceptKey_encodes sha1Hash StreamClient.clientKey).length
    rw [haccepts, hsha1] at hlength
    revert hlength
    decide

/-- The SHA-1 hash of the sample key with the suffix of the protocol. -/
def sampleHash : List UInt8 :=
  [0xb3, 0x7a, 0x4f, 0x2c, 0xc0, 0x62, 0x4f, 0x16, 0x90, 0xf6, 0x46, 0x06, 0xcf, 0x38, 0x59, 0x45,
    0xb2, 0xbe, 0xc4, 0xea]

example : websocketAcceptKey (fun _ => sampleHash) StreamClient.clientKey =
    ascii "s3pPLMBiTxaQ9kYGzzhZRbK+xOo=" := by
  decide +kernel

/-- The request to authenticate as the library writes it. -/
def authText : List UInt8 := ascii "\x7b\"action\":\"auth\",\"key\":\"k\",\"secret\":\"s\"\x7d"

theorem paperClient_connects :
    ∃ reply, handleHandshake (StreamClient.handshake (StreamClient.new "k" "s" true).wsUrl) =
        .ok (some reply) ∧
      let dial : Dial := { socket := some 5, server := some [127, 0, 0, 1], connect := 0, reply }
      ((StreamClient.new "k" "s" true).connectWebsocket (fun _ => sampleHash) (fun _ => authText)
          dial).1 = true ∧
        ¬ Accepts (websocketAcceptKey (fun _ => sampleHash) StreamClient.clientKey) reply :=
  ownClient_connects (fun _ => sampleHash) (fun _ => rfl) (fun _ => authText)
    (StreamClient.new "k" "s" true) (by decide +kernel) (by decide +kernel) 5 [127, 0, 0, 1]

end SimpleWebSocket

end TradingTerminal.WebSocket
