import TradingTerminal.Exchange.WebSocketHandshake
import TradingTerminal.Lib.Since
import Mathlib.Logic.Function.Basic

/-!
# The threads of the adapter

`AlpacaAdapter` in `exchange/exchange_factory.hpp` starts a polling thread, and `AlpacaClient` two
more and a socket. Assigning to a `std::thread` that is still to be joined ends the program. A thread
that joins itself gets an exception; the only thread that calls the adapter, in the callbacks, is the
one that streams, and `handle_websocket_message` catches what a callback throws. The program survives
exactly the sequences of calls without a second successful `connect` before the polling thread of the
first is joined and without a second `run` before a `stop` (`survives_iff`): a `disconnect` or `stop`
in a callback does not end it, but leaves both threads of the client to be joined.
-/

namespace TradingTerminal.WebSocket

open Lib

/-- The threads that are started. -/
inductive Worker where
  | adapterPoll
  | stream
  | clientPoll
  deriving DecidableEq, Repr

/-- The calls on an adapter, from outside or in a callback, on the thread that streams; where it makes
a difference, the call says which. `connect` comes with the answer about the account and what the
calls of the system library come to. -/
inductive AdapterCall where
  | connect (known : Bool) (dial : Dial)
  | run
  | disconnect (inCallback : Bool)
  | stop (inCallback : Bool)

/-- An adapter with its client, the threads that are to be joined, and the descriptors of the
sockets opened and closed so far. -/
structure Adapter where
  stream : StreamClient
  connected : Bool := false
  running : Bool := false
  clientConnected : Bool := false
  joinable : Worker → Bool := fun _ => false
  opened : List Int := []
  closed : List Int := []
  terminated : Bool := false

namespace Adapter

variable (sha1Hash : List UInt8 → List UInt8) (dump : Json → List UInt8)

/-- Whether a thread is to be joined is set. -/
def withThread (a : Adapter) (w : Worker) (joinable : Bool) : Adapter :=
  { a with joinable := Function.update a.joinable w joinable }

/-- A thread is assigned to. -/
def spawn (a : Adapter) (w : Worker) : Adapter :=
  if a.joinable w then { a with terminated := true } else a.withThread w true

/-- `if (thread.joinable()) thread.join()`, by another thread. What is joined has been told to end. -/
def join (a : Adapter) (w : Worker) : Adapter := a.withThread w false

/-- The client after the calls of `connect_websocket`, with the descriptor that was opened. -/
def dialled (a : Adapter) (stream : StreamClient) (socket : Option Nat) : Adapter :=
  { a with
    stream
    opened := a.opened ++ (socket.map fun descriptor : Nat => (descriptor : Int)).toList }

/-- `AlpacaClient::connect_websocket`, with the thread that it starts. -/
def connectWebsocket (a : Adapter) (dial : Dial) : Adapter :=
  let (upgraded, stream) := a.stream.connectWebsocket sha1Hash dump dial
  let a := a.dialled stream dial.socket
  if upgraded then a.spawn .stream else a

/-- `AlpacaClient::connect`, which succeeds whatever comes of the socket. -/
def connectClient (a : Adapter) (known : Bool) (dial : Dial) : Bool × Adapter :=
  if !known then (false, a)
  else
    let a := { a with clientConnected := true }.spawn .clientPoll
    (true, if a.terminated then a else a.connectWebsocket sha1Hash dump dial)

/-- The descriptor that the client holds. -/
def current (a : Adapter) : List Int := if a.stream.wsSocket = -1 then [] else [a.stream.wsSocket]

def closeSocket (a : Adapter) : Adapter :=
  if a.stream.wsSocket ≠ -1 then
    { a with
      closed := a.closed ++ [a.stream.wsSocket]
      stream := { a.stream with wsSocket := -1 } }
  else a

/-- `AlpacaClient::disconnect`. In a callback the thread that streams would join itself; the
`std::system_error` leaves out the second join and is caught behind the callback. -/
def disconnectClient (a : Adapter) (inCallback : Bool) : Adapter :=
  let a := { a with clientConnected := false, stream := { a.stream with streaming := false } }
  let a := a.closeSocket
  if inCallback && a.joinable .stream then a else (a.join .stream).join .clientPoll

def connect (a : Adapter) (known : Bool) (dial : Dial) : Adapter :=
  let (result, a) := a.connectClient sha1Hash dump known dial
  if result then { a with connected := true } else a

def run (a : Adapter) : Adapter :=
  if !a.connected then a else { a with running := true }.spawn .adapterPoll

def disconnect (a : Adapter) (inCallback : Bool) : Adapter :=
  { a with connected := false }.disconnectClient inCallback

def stop (a : Adapter) (inCallback : Bool) : Adapter :=
  ({ a with running := false }.join .adapterPoll).disconnect inCallback

def perform (a : Adapter) : AdapterCall → Adapter
  | .connect known dial => a.connect sha1Hash dump known dial
  | .run => a.run
  | .disconnect inCallback => a.disconnect inCallback
  | .stop inCallback => a.stop inCallback

/-- One call; a program that was terminated makes none. -/
def step (a : Adapter) (x : AdapterCall) : Adapter :=
  if a.terminated then a else a.perform sha1Hash dump x

/-- The adapter as it is built. -/
def new (apiKey secretKey : String) (paper : Bool) : Adapter :=
  { stream := .new apiKey secretKey paper }

end Adapter

/-! ## What the calls so far come to -/

namespace AdapterCall

/-- A `connect` that finds the account. -/
def Connects : AdapterCall → Prop
  | .connect known _ => known = true
  | _ => False

/-- A `connect` that finds the account and gets an answer that passes for an upgrade. -/
def Upgrades : AdapterCall → Prop
  | .connect known dial => known = true ∧ dial.socket.isSome = true ∧ dial.server.isSome = true ∧
      0 ≤ dial.connect ∧ (find (ascii "101") dial.buffered).isSome = true
  | _ => False

def Disconnects : AdapterCall → Prop
  | .disconnect _ | .stop _ => True
  | _ => False

def Stops : AdapterCall → Prop
  | .stop _ => True
  | _ => False

def InCallback : AdapterCall → Prop
  | .disconnect inCallback | .stop inCallback => inCallback = true
  | _ => False

/-- The latest `connect` that succeeded has not been undone. -/
def Connected (calls : List AdapterCall) : Prop :=
  Since (fun _ x => x.Connects) (fun _ x => x.Disconnects) calls

/-- The latest thread that streams is to be joined: it cannot join itself. -/
def Streaming (calls : List AdapterCall) : Prop :=
  Since (fun _ x => x.Upgrades) (fun _ x => x.Disconnects ∧ ¬ x.InCallback) calls

/-- The call comes to the joins of the client's threads, and through them. -/
def Joins (before : List AdapterCall) (x : AdapterCall) : Prop :=
  x.Disconnects ∧ ¬ (x.InCallback ∧ Streaming before)

/-- The latest polling thread of the client is to be joined. -/
def Polling (calls : List AdapterCall) : Prop := Since (fun _ x => x.Connects) Joins calls

/-- Nothing has stopped the latest `run` that was made while connected. -/
def Running (calls : List AdapterCall) : Prop :=
  Since (fun before x => x = .run ∧ Connected before) (fun _ x => x.Stops) calls

/-- The thread is to be joined. -/
def Unjoined (calls : List AdapterCall) : Worker → Prop
  | .adapterPoll => Running calls
  | .stream => Streaming calls
  | .clientPoll => Polling calls

/-- The call assigns to a thread that is to be joined. -/
def Clashes (before : List AdapterCall) (x : AdapterCall) : Prop :=
  x.Connects ∧ Polling before ∨ x = .run ∧ Connected before ∧ Running before

section Concat

variable {before : List AdapterCall} {x : AdapterCall}

theorem Connects.of_upgrades (h : x.Upgrades) : x.Connects := by
  cases x with
  | connect known dial => exact h.1
  | run => exact h.elim
  | disconnect inCallback => exact h.elim
  | stop inCallback => exact h.elim

theorem Disconnects.not_connects (h : x.Disconnects) : ¬ x.Connects := by
  cases x with
  | connect known dial => exact h.elim
  | run => exact id
  | disconnect inCallback => exact id
  | stop inCallback => exact id

theorem Disconnects.of_stops (h : x.Stops) : x.Disconnects := by
  cases x with
  | connect known dial => exact h.elim
  | run => exact h.elim
  | disconnect inCallback => exact h.elim
  | stop inCallback => exact trivial

/-- No thread streams behind the polling thread of its `connect`. -/
theorem Streaming.polling (h : Streaming before) : Polling before :=
  h.mono (fun _ _ => Connects.of_upgrades) fun _ _ hstreaming hjoins =>
    ⟨hjoins.1, fun hcallback => hjoins.2 ⟨hcallback, hstreaming⟩⟩

theorem Connected.polling (h : Connected before) : Polling before :=
  h.mono (fun _ _ => id) fun _ _ _ hjoins => hjoins.1

/-- A call that joins the client's threads leaves none of them to be joined. -/
theorem not_unjoined_of_joins (h : Joins before x) {w : Worker} (hw : w ≠ .adapterPoll) :
    ¬ Unjoined (before ++ [x]) w := by
  have hconnects : ¬ x.Connects := h.1.not_connects
  have hupgrades : ¬ x.Upgrades := fun hup => hconnects (.of_upgrades hup)
  cases w with
  | adapterPoll => exact absurd rfl hw
  | clientPoll => exact not_since_concat hconnects h
  | stream =>
    change ¬ Streaming (before ++ [x])
    by_cases hcallback : x.InCallback
    · have hstreaming : ¬ Streaming before := fun hs => h.2 ⟨hcallback, hs⟩
      refine fun hs => hstreaming ?_
      exact (since_concat_of_not hupgrades fun hx => hx.2 hcallback).1 hs
    · exact not_since_concat hupgrades ⟨h.1, hcallback⟩

/-- A call in a callback changes nothing about the threads of the client. -/
theorem unjoined_of_callback (hcallback : x.InCallback) (hstreaming : Streaming before)
    (hx : x.Disconnects) {w : Worker} (hw : w ≠ .adapterPoll) :
    Unjoined (before ++ [x]) w ↔ Unjoined before w := by
  have hconnects : ¬ x.Connects := hx.not_connects
  cases w with
  | adapterPoll => exact absurd rfl hw
  | clientPoll => exact since_concat_of_not hconnects fun hjoins => hjoins.2 ⟨hcallback, hstreaming⟩
  | stream =>
    change Streaming (before ++ [x]) ↔ Streaming before
    exact since_concat_of_not (fun hup => hconnects (.of_upgrades hup)) fun hends =>
      hends.2 hcallback

/-- What a `stop` leaves to be joined. -/
theorem unjoined_stop_iff {inCallback : Bool} {w : Worker} :
    Unjoined (before ++ [.stop inCallback]) w ↔
      inCallback = true ∧ Streaming before ∧ w ≠ .adapterPoll := by
  have hdisconnects : Disconnects (.stop inCallback) := trivial
  by_cases hw : w = .adapterPoll
  · subst hw
    have hstopped : ¬ Running (before ++ [.stop inCallback]) :=
      not_since_concat (fun hrun => by cases hrun.1) trivial
    exact iff_of_false hstopped fun h => h.2.2 rfl
  · rw [and_iff_left hw]
    by_cases hself : inCallback = true ∧ Streaming before
    · have hcallback : InCallback (.stop inCallback) := hself.1
      rw [unjoined_of_callback hcallback hself.2 hdisconnects hw]
      refine iff_of_true ?_ hself
      cases w with
      | adapterPoll => exact absurd rfl hw
      | stream => exact hself.2
      | clientPoll => exact Streaming.polling hself.2
    · exact iff_of_false (not_unjoined_of_joins ⟨hdisconnects, hself⟩ hw) hself

end Concat

end AdapterCall

namespace Adapter

open AdapterCall

variable {sha1Hash : List UInt8 → List UInt8} {dump : Json → List UInt8} {a : Adapter}
  {w : Worker} {inCallback : Bool} {before : List AdapterCall}

/-! ## The parts of a call -/

@[simp] theorem withThread_joinable_self (a : Adapter) (w : Worker) (joinable : Bool) :
    (a.withThread w joinable).joinable w = joinable :=
  Function.update_self ..

theorem withThread_joinable_ne (a : Adapter) {w w' : Worker} (h : w' ≠ w) (joinable : Bool) :
    (a.withThread w joinable).joinable w' = a.joinable w' :=
  Function.update_of_ne h ..

theorem spawn_of_idle (h : a.joinable w = false) : a.spawn w = a.withThread w true := by
  rw [spawn, h]
  rfl

theorem spawn_of_joinable (h : a.joinable w = true) : a.spawn w = { a with terminated := true } :=
  if_pos h

/-- Whether the handshake passes is decided by the outcome of the calls, and whatever fails, the
client holds the descriptor that `socket` gave it. -/
theorem stream_connectWebsocket_spec (sha1Hash : List UInt8 → List UInt8) (dump : Json → List UInt8)
    (c : StreamClient) (dial : Dial) :
    ((c.connectWebsocket sha1Hash dump dial).1 = true ↔ Upgrades (.connect true dial)) ∧
      (c.connectWebsocket sha1Hash dump dial).2.wsSocket =
        (dial.socket.map fun descriptor : Nat => (descriptor : Int)).getD (-1) := by
  unfold StreamClient.connectWebsocket Upgrades
  cases hsocket : dial.socket with
  | none => simp [hsocket]
  | some descriptor =>
    have hopen : ∀ message (c : StreamClient), c.wsSocket = descriptor →
        (c.sendWebsocketMessage message).wsSocket = descriptor := by
      intro message c hc
      unfold StreamClient.sendWebsocketMessage
      split <;> exact hc
    cases hserver : dial.server with
    | none => simp [hserver]
    | some address =>
      dsimp only
      by_cases hconnect : dial.connect < 0
      · rw [if_pos hconnect]
        simp [hconnect]
      · rw [if_neg hconnect]
        cases hfound : find (ascii "101") dial.buffered with
        | none =>
          simp only [Option.isNone_none, if_true]
          exact ⟨iff_of_false Bool.false_ne_true (by simp), rfl⟩
        | some i =>
          simp only [Option.isNone_some, Bool.false_eq_true, if_false]
          refine ⟨iff_of_true trivial ⟨trivial, ?_, ?_, not_lt.1 hconnect, rfl⟩, hopen _ _ rfl⟩
          · rw [hsocket]
            rfl
          · rw [hserver]
            rfl

variable (sha1Hash dump) in
/-- The socket is dialled while no thread streams. -/
theorem connectWebsocket_spec (hup : a.terminated = false) (hstream : a.joinable .stream = false)
    (dial : Dial) {b : Adapter} (hb : a.connectWebsocket sha1Hash dump dial = b) :
    b.terminated = false ∧ (∀ w, w ≠ .stream → b.joinable w = a.joinable w) ∧
      (b.joinable .stream = true ↔ Upgrades (.connect true dial)) ∧
      b.stream.wsSocket = (dial.socket.map fun descriptor : Nat => (descriptor : Int)).getD (-1) ∧
      b.opened = a.opened ++ (dial.socket.map fun descriptor : Nat => (descriptor : Int)).toList ∧
      b.closed = a.closed := by
  obtain ⟨hupgrade, hsocket⟩ := stream_connectWebsocket_spec sha1Hash dump a.stream dial
  rw [← hb, ← hupgrade]
  unfold connectWebsocket
  dsimp only
  cases hpasses : (a.stream.connectWebsocket sha1Hash dump dial).1 with
  | true =>
    rw [if_pos rfl, spawn_of_idle (a := a.dialled _ _) hstream]
    refine ⟨hup, fun w hw => withThread_joinable_ne _ hw _, ?_, hsocket, rfl, rfl⟩
    rw [withThread_joinable_self]
  | false =>
    rw [if_neg Bool.false_ne_true]
    refine ⟨hup, fun _ _ => rfl, ?_, hsocket, rfl, rfl⟩
    rw [← hstream]
    rfl

/-- A `connect` that finds the account, with the threads of the client idle. -/
theorem connect_eq (hpoll : a.joinable .clientPoll = false) (hup : a.terminated = false)
    (dial : Dial) : a.connect sha1Hash dump true dial =
      { ({ a with clientConnected := true }.withThread .clientPoll true).connectWebsocket
          sha1Hash dump dial with connected := true } := by
  have hspawn : { a with clientConnected := true }.spawn .clientPoll =
      { a with clientConnected := true }.withThread .clientPoll true :=
    spawn_of_idle hpoll
  have hstill : ({ a with clientConnected := true }.withThread .clientPoll true).terminated =
      false := hup
  unfold connect connectClient
  simp only [Bool.not_true, Bool.false_eq_true, if_false, if_true, hspawn, hstill]

/-- A second `connect` assigns to the polling thread of the first. -/
theorem connect_of_joinable (hpoll : a.joinable .clientPoll = true) (dial : Dial) :
    a.connect sha1Hash dump true dial =
      { a with clientConnected := true, connected := true, terminated := true } := by
  have hspawn : { a with clientConnected := true }.spawn .clientPoll =
      { a with clientConnected := true, terminated := true } := spawn_of_joinable hpoll
  simp only [connect, connectClient, hspawn, Bool.not_true, Bool.false_eq_true, if_false, if_true]

theorem run_of_joinable (hon : a.connected = true) (hpoll : a.joinable .adapterPoll = true) :
    a.run = { a with running := true, terminated := true } := by
  rw [run, if_neg (by rw [hon]; decide)]
  exact spawn_of_joinable (a := { a with running := true }) hpoll

theorem closeSocket_eq (a : Adapter) :
    a.closeSocket =
      { a with closed := a.closed ++ a.current, stream := { a.stream with wsSocket := -1 } } := by
  unfold closeSocket current
  by_cases hsocket : a.stream.wsSocket = -1
  · rw [if_neg (not_not.2 hsocket), if_pos hsocket, List.append_nil, ← hsocket]
  · rw [if_pos hsocket, if_neg hsocket]

/-- The adapter when a `disconnect` comes to its joins. -/
def cutOff (a : Adapter) : Adapter :=
  { a with
    connected := false
    clientConnected := false
    stream := { a.stream with streaming := false, wsSocket := -1 }
    closed := a.closed ++ a.current }

theorem disconnect_eq (a : Adapter) (inCallback : Bool) :
    a.disconnect inCallback =
      if inCallback && a.joinable .stream then a.cutOff
      else (a.cutOff.withThread .stream false).withThread .clientPoll false := by
  unfold disconnect disconnectClient
  dsimp only
  rw [closeSocket_eq]
  rfl

/-- A `disconnect` closes the descriptor held. -/
theorem disconnect_accounted (haccounted : a.opened = a.closed ++ a.current) (inCallback : Bool) :
    (a.disconnect inCallback).opened =
      (a.disconnect inCallback).closed ++ (a.disconnect inCallback).current := by
  have hcut : a.opened = (a.closed ++ a.current) ++ [] := haccounted.trans (List.append_nil _).symm
  rw [disconnect_eq]
  split <;> exact hcut

/-! ## One call -/

/-- The state follows from the calls so far, and every descriptor is closed or held. -/
structure Follows (before : List AdapterCall) (a : Adapter) : Prop where
  up : a.terminated = false
  connected : a.connected = true ↔ Connected before
  joinable : ∀ w, a.joinable w = true ↔ Unjoined before w
  held : ¬ Connected before → a.stream.wsSocket = -1
  accounted : a.opened = a.closed ++ a.current

/-- A terminated program has lost no descriptor either. -/
def Failed (a : Adapter) : Prop := a.terminated = true ∧ a.opened = a.closed ++ a.current

theorem Follows.idle (h : Follows before a) (hw : ¬ Unjoined before w) : a.joinable w = false := by
  rw [← Bool.not_eq_true, h.joinable]
  exact hw

/-- A call that changes nothing. -/
theorem Follows.same {x : AdapterCall} (h : Follows before a) (hconnects : ¬ x.Connects)
    (hdisconnects : ¬ x.Disconnects) (hruns : ¬ (x = .run ∧ Connected before)) :
    Follows (before ++ [x]) a := by
  have hup : ¬ x.Upgrades := fun hup => hconnects (.of_upgrades hup)
  have hstops : ¬ x.Stops := fun hstops => hdisconnects (.of_stops hstops)
  have hconnected : Connected (before ++ [x]) ↔ Connected before :=
    since_concat_of_not hconnects hdisconnects
  have hrunning : Running (before ++ [x]) ↔ Running before := since_concat_of_not hruns hstops
  have hstreaming : Streaming (before ++ [x]) ↔ Streaming before :=
    since_concat_of_not hup fun hends => hdisconnects hends.1
  have hpolling : Polling (before ++ [x]) ↔ Polling before :=
    since_concat_of_not hconnects fun hjoins => hdisconnects hjoins.1
  refine ⟨h.up, h.connected.trans hconnected.symm, fun w => (h.joinable w).trans ?_, ?_, h.accounted⟩
  · cases w with
    | adapterPoll => exact hrunning.symm
    | stream => exact hstreaming.symm
    | clientPoll => exact hpolling.symm
  · intro hnot
    exact h.held fun hyes => hnot (hconnected.2 hyes)

theorem Follows.connect (h : Follows before a) {dial : Dial} (hnot : ¬ Polling before) :
    Follows (before ++ [.connect true dial]) (a.connect sha1Hash dump true dial) := by
  have hpoll : a.joinable .clientPoll = false := h.idle hnot
  have hstream : a.joinable .stream = false := h.idle fun hs => hnot (Streaming.polling hs)
  have hconnected : Connected (before ++ [.connect true dial]) := since_concat.2 (Or.inl rfl)
  have hpolling : Polling (before ++ [.connect true dial]) := since_concat.2 (Or.inl rfl)
  have hrunning : Running (before ++ [.connect true dial]) ↔ Running before :=
    since_concat_of_not (fun hrun => by cases hrun.1) id
  have hstreaming : Streaming (before ++ [.connect true dial]) ↔ Upgrades (.connect true dial) := by
    rw [Streaming, since_concat, or_iff_left]
    exact fun hs => hnot (Streaming.polling hs.1)
  have hidle : ({ a with clientConnected := true }.withThread .clientPoll true).joinable .stream =
      false := by
    rw [withThread_joinable_ne _ (by decide)]
    exact hstream
  have hstill : ({ a with clientConnected := true }.withThread .clientPoll true).terminated =
      false := h.up
  obtain ⟨b, hb⟩ : ∃ b, ({ a with clientConnected := true }.withThread .clientPoll
      true).connectWebsocket sha1Hash dump dial = b := ⟨_, rfl⟩
  obtain ⟨hup, hothers, hupgrade, hsocket, hopened, hclosed⟩ :=
    connectWebsocket_spec sha1Hash dump hstill hidle dial hb
  rw [connect_eq hpoll h.up, hb]
  refine ⟨hup, iff_of_true rfl hconnected, fun w => ?_, fun hno => absurd hconnected hno, ?_⟩
  · cases w with
    | adapterPoll =>
      refine Iff.trans ?_ ((h.joinable .adapterPoll).trans hrunning.symm)
      dsimp only
      rw [hothers .adapterPoll (by decide), withThread_joinable_ne _ (by decide)]
    | stream => exact hupgrade.trans hstreaming.symm
    | clientPoll =>
      refine iff_of_true ?_ hpolling
      dsimp only
      rw [hothers .clientPoll (by decide), withThread_joinable_self]
  · -- nothing was held before, so the new descriptor is all that is
    have hnone : a.current = [] := if_pos (h.held fun hon => hnot (Connected.polling hon))
    have haccounted := h.accounted
    rw [hnone, List.append_nil] at haccounted
    have hcurrent : b.current =
        (dial.socket.map fun descriptor : Nat => (descriptor : Int)).toList := by
      rw [current, hsocket]
      cases dial.socket with
      | none => rfl
      | some descriptor => exact if_neg (by simp)
    calc b.opened = a.opened ++ b.current := hopened.trans (by rw [hcurrent]; rfl)
      _ = b.closed ++ b.current := by rw [haccounted, hclosed]; rfl

/-- A `run` while connected. -/
theorem Follows.run (h : Follows before a) (hon : Connected before) (hnot : ¬ Running before) :
    Follows (before ++ [.run]) a.run := by
  have hrunning : Running (before ++ [.run]) := since_concat.2 (Or.inl ⟨rfl, hon⟩)
  have hconnected : Connected (before ++ [.run]) ↔ Connected before :=
    since_concat_of_not id id
  have hstreaming : Streaming (before ++ [.run]) ↔ Streaming before :=
    since_concat_of_not id fun hends => hends.1
  have hpolling : Polling (before ++ [.run]) ↔ Polling before :=
    since_concat_of_not id fun hjoins => hjoins.1
  have hidle : a.joinable .adapterPoll = false := h.idle hnot
  have hrun : a.run = { a with running := true }.withThread .adapterPoll true := by
    unfold Adapter.run
    rw [if_neg (by rw [h.connected.2 hon]; decide)]
    exact spawn_of_idle (a := { a with running := true }) hidle
  rw [hrun]
  refine ⟨h.up, h.connected.trans hconnected.symm, fun w => ?_, ?_, h.accounted⟩
  · cases w with
    | adapterPoll => exact iff_of_true (withThread_joinable_self _ _ _) hrunning
    | stream =>
      rw [withThread_joinable_ne _ (by decide)]
      exact (h.joinable .stream).trans hstreaming.symm
    | clientPoll =>
      rw [withThread_joinable_ne _ (by decide)]
      exact (h.joinable .clientPoll).trans hpolling.symm
  · exact fun hno => h.held fun hyes => hno (hconnected.2 hyes)

/-- A `disconnect`, which is also what a `stop` ends with. -/
theorem follows_disconnect (hup : a.terminated = false)
    (haccounted : a.opened = a.closed ++ a.current) {x : AdapterCall} (hx : x.Disconnects)
    (hcallback : x.InCallback ↔ inCallback = true)
    (hadapter : a.joinable .adapterPoll = true ↔ Running (before ++ [x]))
    (hclient : ∀ w, w ≠ .adapterPoll → (a.joinable w = true ↔ Unjoined before w)) :
    Follows (before ++ [x]) (a.disconnect inCallback) := by
  have hstream : a.joinable .stream = true ↔ Streaming before := hclient .stream (by decide)
  have hoff : ¬ Connected (before ++ [x]) := not_since_concat hx.not_connects hx
  have hkept := disconnect_accounted haccounted inCallback
  by_cases hself : inCallback = true ∧ a.joinable .stream = true
  · -- the exception leaves the threads as they are
    have hcut : a.disconnect inCallback = a.cutOff := by
      rw [disconnect_eq, hself.1, hself.2]
      rfl
    have hsame : ∀ w, w ≠ .adapterPoll → (Unjoined (before ++ [x]) w ↔ Unjoined before w) :=
      fun w hw => unjoined_of_callback (hcallback.2 hself.1) (hstream.1 hself.2) hx hw
    rw [hcut] at hkept ⊢
    refine ⟨hup, iff_of_false Bool.false_ne_true hoff, fun w => ?_, fun _ => rfl, hkept⟩
    by_cases hw : w = .adapterPoll
    · subst hw
      exact hadapter
    · exact (hclient w hw).trans (hsame w hw).symm
  · have hjoins : Joins before x := by
      refine ⟨hx, fun hboth => hself ⟨hcallback.1 hboth.1, hstream.2 hboth.2⟩⟩
    have hjoined : a.disconnect inCallback =
        (a.cutOff.withThread .stream false).withThread .clientPoll false := by
      rw [disconnect_eq, if_neg]
      rwa [Bool.and_eq_true]
    rw [hjoined] at hkept ⊢
    refine ⟨hup, iff_of_false Bool.false_ne_true hoff, fun w => ?_, fun _ => rfl, hkept⟩
    cases w with
    | adapterPoll =>
      rw [withThread_joinable_ne _ (by decide), withThread_joinable_ne _ (by decide)]
      exact hadapter
    | stream =>
      rw [withThread_joinable_ne _ (by decide), withThread_joinable_self]
      exact iff_of_false Bool.false_ne_true (not_unjoined_of_joins hjoins (by decide))
    | clientPoll =>
      rw [withThread_joinable_self]
      exact iff_of_false Bool.false_ne_true (not_unjoined_of_joins hjoins (by decide))

theorem Follows.stop (h : Follows before a) (inCallback : Bool) :
    Follows (before ++ [.stop inCallback]) (a.stop inCallback) := by
  have hnot : ¬ Unjoined (before ++ [.stop inCallback]) .adapterPoll :=
    fun hrunning => (unjoined_stop_iff.1 hrunning).2.2 rfl
  have hdisconnects : Disconnects (.stop inCallback) := trivial
  refine follows_disconnect (a := { a with running := false }.join .adapterPoll) h.up h.accounted
    hdisconnects Iff.rfl ?_ fun w hw => ?_
  · rw [join, withThread_joinable_self]
    exact iff_of_false Bool.false_ne_true hnot
  · rw [join, withThread_joinable_ne _ hw]
    exact h.joinable w

/-! ## Any call -/

/-- A call that clashes ends the program. -/
theorem Follows.clash (h : Follows before a) {x : AdapterCall} (hx : Clashes before x) :
    Failed (a.perform sha1Hash dump x) := by
  rcases hx with ⟨hconnects, hpolling⟩ | ⟨rfl, hon, hrunning⟩
  · cases x with
    | connect known dial =>
      obtain rfl : known = true := hconnects
      change Failed (a.connect sha1Hash dump true dial)
      rw [connect_of_joinable ((h.joinable .clientPoll).2 hpolling)]
      exact ⟨rfl, h.accounted⟩
    | run => exact hconnects.elim
    | disconnect inCallback => exact hconnects.elim
    | stop inCallback => exact hconnects.elim
  · change Failed a.run
    rw [run_of_joinable (h.connected.2 hon) ((h.joinable .adapterPoll).2 hrunning)]
    exact ⟨rfl, h.accounted⟩

/-- A call that does not clash is made. -/
theorem Follows.perform (h : Follows before a) {x : AdapterCall} (hx : ¬ Clashes before x) :
    Follows (before ++ [x]) (a.perform sha1Hash dump x) := by
  obtain ⟨hconnect, hrun⟩ := not_or.1 hx
  cases x with
  | connect known dial =>
    cases known with
    | true => exact h.connect fun hpolling => hconnect ⟨rfl, hpolling⟩
    | false => exact h.same Bool.false_ne_true id fun hrun => by cases hrun.1
  | run =>
    by_cases hon : Connected before
    · exact h.run hon fun hrunning => hrun ⟨rfl, hon, hrunning⟩
    · have hskip : a.run = a := by
        unfold Adapter.run
        rw [if_pos]
        rw [Bool.not_eq_true', ← Bool.not_eq_true, h.connected]
        exact hon
      change Follows _ a.run
      rw [hskip]
      exact h.same id id fun hrun => hon hrun.2
  | disconnect inCallback =>
    have hdisconnects : Disconnects (.disconnect inCallback) := trivial
    have hrunning : Running (before ++ [.disconnect inCallback]) ↔ Running before :=
      since_concat_of_not (fun hrun => by cases hrun.1) id
    refine follows_disconnect h.up h.accounted hdisconnects Iff.rfl ?_ fun w _ => h.joinable w
    exact (h.joinable .adapterPoll).trans hrunning.symm
  | stop inCallback => exact h.stop inCallback

theorem follows_new (apiKey secretKey : String) (paper : Bool) :
    Follows [] (new apiKey secretKey paper) where
  up := rfl
  connected := iff_of_false Bool.false_ne_true not_since_nil
  joinable w := by
    have hrunning : ¬ Running [] := not_since_nil
    have hstreaming : ¬ Streaming [] := not_since_nil
    have hpolling : ¬ Polling [] := not_since_nil
    refine iff_of_false Bool.false_ne_true ?_
    cases w with
    | adapterPoll => exact hrunning
    | stream => exact hstreaming
    | clientPoll => exact hpolling
  held _ := rfl
  accounted := rfl

/-- **The life of an adapter.** After every sequence of calls, with any answers: the program
survives if and only if no call clashed with those before it; every descriptor that was opened is
closed or is the one that is held; and after a last `stop` that was survived nothing is held, and no
thread is left to be joined unless it was made in a callback: then both threads of the client are. -/
theorem survives_iff (sha1Hash : List UInt8 → List UInt8) (dump : Json → List UInt8)
    (apiKey secretKey : String) (paper : Bool) (calls : List AdapterCall) :
    let a := Lib.run (step sha1Hash dump) (new apiKey secretKey paper) calls
    (a.terminated = false ↔ ¬ Once Clashes calls) ∧ a.opened = a.closed ++ a.current ∧
      ∀ earlier inCallback, calls = earlier ++ [.stop inCallback] → a.terminated = false →
        a.current = [] ∧ ∀ w, a.joinable w = true ↔
          inCallback = true ∧ Streaming earlier ∧ w ≠ .adapterPoll := by
  intro a
  have hrule : (¬ Once Clashes calls → Follows calls a) ∧ (Once Clashes calls → Failed a) := by
    refine run_of_history (fun before a x h hx => ?_) (fun before a x h hx => ?_)
      (fun a x h => ?_) (follows_new apiKey secretKey paper) calls
    · rw [step, if_neg (by rw [h.up]; decide)]
      exact h.perform hx
    · rw [step, if_neg (by rw [h.up]; decide)]
      exact h.clash hx
    · rw [step, if_pos h.1]
      exact h
  obtain ⟨hkept, hfailed⟩ := hrule
  by_cases hclash : Once Clashes calls
  · obtain ⟨hdown, haccounted⟩ := hfailed hclash
    refine ⟨iff_of_false ?_ (not_not.2 hclash), haccounted, fun _ _ _ hup => ?_⟩
    · rw [hdown]
      decide
    · rw [hdown] at hup
      cases hup
  · have hfollows := hkept hclash
    refine ⟨iff_of_true hfollows.up hclash, hfollows.accounted, ?_⟩
    rintro earlier inCallback rfl -
    have hoff : ¬ Connected (earlier ++ [.stop inCallback]) := not_since_concat id trivial
    exact ⟨if_pos (hfollows.held hoff), fun w => (hfollows.joinable w).trans unjoined_stop_iff⟩

/-- What `main` asks for, the second `stop` out of the destructor; a `stop` in a callback, which the
destructor makes up for; and a `connect` after one. -/
example :
    let dial : Dial :=
      { socket := some 5, server := some [], connect := 0, reply := ascii "HTTP/1.1 101\r\n\r\n" }
    let after (calls : List AdapterCall) : Adapter :=
      Lib.run (step id fun _ => []) (new "key" "secret" true) (.connect true dial :: .run :: calls)
    (after [.stop false, .stop false]).closed = [5] ∧
      (after [.stop false, .stop false]).terminated = false ∧
      (after [.stop true]).terminated = false ∧ (after [.stop true]).joinable .stream = true ∧
      (after [.stop true, .stop false]).joinable .stream = false ∧
      (after [.stop true, .connect true dial]).terminated = true := by
  decide +kernel

end Adapter

end TradingTerminal.WebSocket
