import TradingTerminal.Exchange.CurlEasy
import TradingTerminal.Lib.Run
import Mathlib.Data.List.Forall2

/-!
# REST requests of the Alpaca client

`AlpacaClient::send_request` of `exchange/alpaca_client.cpp` and the calls built on it. All calls of
a client go through one curl handle, and each sets only some of its options.

`wireLog` lists what a sequence of calls puts on the wire. A call is carried out as on a fresh handle
unless an earlier one left something on the handle that it does not set again (`carriesAll_iff`): a
PUT or DELETE leaves its word, which no GET or POST takes back, and a POST or PUT leaves the request
kind and the pointer to its body, which a DELETE sends along.
-/

namespace TradingTerminal

open Lib

/-- The arguments of one `send_request` call; `method` and `body` have the source's defaults. -/
structure ApiCall where
  endpoint : String
  method : String := "GET"
  body : String := ""
  deriving DecidableEq, Repr

/-- How `curl_easy_perform` ended: a transport failure, or a status code with the text received. -/
inductive Transfer where
  | failed
  | response (httpCode : Int) (text : String)
  deriving DecidableEq, Repr

/-- The part of `AlpacaClient` that requests use; `curl` is null when `curl_easy_init` failed. -/
structure AlpacaClient (curl : CurlEasy) where
  apiKey : String
  secretKey : String
  baseUrl : String
  handle : Option curl.Handle

namespace AlpacaClient

variable {curl : CurlEasy}

/-- The constructor, with `curl_easy_init` succeeding. -/
def new (curl : CurlEasy) (apiKey secretKey : String) (paper : Bool) : AlpacaClient curl where
  apiKey
  secretKey
  baseUrl := if paper then "https://paper-api.alpaca.markets" else "https://api.alpaca.markets"
  handle := some curl.init

/-- Full URLs are taken as they are, anything else is appended to the base URL. -/
def urlOf (c : AlpacaClient curl) (endpoint : String) : String :=
  if endpoint.startsWith "https://" then endpoint else c.baseUrl ++ endpoint

def methodOptions (method body : String) : List CurlOption :=
  if method = "POST" then [.post, .postFields body]
  else if method = "DELETE" then [.customRequest "DELETE"]
  else if method = "PUT" then [.customRequest "PUT", .postFields body]
  else [.httpGet]

def callOptions (c : AlpacaClient curl) (call : ApiCall) : List CurlOption :=
  [.url (c.urlOf call.endpoint), .writeFunction, .writeData, .timeout 10, .sslVerifyPeer 1,
    .httpHeader ["APCA-API-KEY-ID: " ++ c.apiKey, "APCA-API-SECRET-KEY: " ++ c.secretKey,
      "Content-Type: application/json"]] ++
    methodOptions call.method call.body

/-- `AlpacaClient::send_request`: the request put on the wire, the string returned and the client
after the call, when the body of the call is gone. Without a handle nothing is sent. -/
def sendRequest (c : AlpacaClient curl) (call : ApiCall) (transfer : Transfer) :
    Option HttpRequest × String × AlpacaClient curl :=
  match c.handle with
  | none => (none, "", c)
  | some h =>
    let h := curl.setopts h (c.callOptions call)
    let returned := match transfer with
      | .failed => ""
      | .response httpCode text => if httpCode < 200 ∨ httpCode ≥ 300 then "" else text
    (some (curl.sends h), returned, { c with handle := some (curl.expire h) })

/-- The requests that a sequence of calls puts on the wire, whatever the transfers end with. -/
def wireLog (c : AlpacaClient curl) : List (ApiCall × Transfer) → List HttpRequest
  | [] => []
  | (call, transfer) :: rest =>
    let (sent, _, c') := c.sendRequest call transfer
    sent.toList ++ c'.wireLog rest

/-! ## The calls of the API -/

def getAccount : ApiCall := { endpoint := "/v2/account" }

/-- The request of `AlpacaClient::place_order`, with the dumped JSON body. -/
def placeOrder (body : String) : ApiCall := { endpoint := "/v2/orders", method := "POST", body }

def cancelOrder (orderId : String) : ApiCall :=
  { endpoint := "/v2/orders/" ++ orderId, method := "DELETE" }

def getOrders (openOnly : Bool) : ApiCall :=
  { endpoint := if openOnly then "/v2/orders" ++ "?status=open" else "/v2/orders" }

def getPositions : ApiCall := { endpoint := "/v2/positions" }

def closePosition (symbol : String) : ApiCall :=
  { endpoint := "/v2/positions/" ++ symbol, method := "DELETE" }

/-! ## What is on the wire -/

def prepared (c : AlpacaClient curl) (h : curl.Handle) (call : ApiCall) : curl.Handle :=
  curl.setopts h (c.callOptions call)

/-- What the call would put on the wire through a handle of its own. -/
def freshRequest (c : AlpacaClient curl) (call : ApiCall) : HttpRequest :=
  curl.sends (c.prepared curl.init call)

/-- The request carries the call: its method, its URL and, for POST and PUT, its body, and it is the
request of a fresh handle. -/
structure Carries (c : AlpacaClient curl) (call : ApiCall) (sent : HttpRequest) : Prop where
  method : sent.method = call.method
  url : sent.url = c.urlOf call.endpoint
  body : call.method = "POST" ∨ call.method = "PUT" → sent.body = some (.lent call.body)
  fresh : sent = c.freshRequest call

def KnownMethod (call : ApiCall) : Prop :=
  call.method = "GET" ∨ call.method = "POST" ∨ call.method = "PUT" ∨ call.method = "DELETE"

def Overrides (call : ApiCall) : Prop := call.method = "PUT" ∨ call.method = "DELETE"

instance (call : ApiCall) : Decidable (Overrides call) := inferInstanceAs (Decidable (_ ∨ _))

def customOf (h : curl.Handle) : Option String := (curl.options h).customRequest

def kindOf (h : curl.Handle) : RequestKind := (curl.options h).kind

@[simp] theorem customOf_init : customOf curl.init = none := by
  rw [customOf, curl.options_init]

@[simp] theorem kindOf_init : kindOf curl.init = .get := by
  rw [kindOf, curl.options_init]

@[simp] theorem customOf_expire (h : curl.Handle) : customOf (curl.expire h) = customOf h := by
  rw [customOf, curl.options_expire]
  rfl

@[simp] theorem kindOf_expire (h : curl.Handle) : kindOf (curl.expire h) = kindOf h := by
  rw [kindOf, curl.options_expire]
  rfl

/-- A PUT or DELETE leaves its word as the custom method; a GET or POST leaves the one it found. -/
theorem customOf_prepared (c : AlpacaClient curl) (h : curl.Handle) {call : ApiCall}
    (hk : KnownMethod call) :
    customOf (c.prepared h call) = if Overrides call then some call.method else customOf h := by
  unfold customOf prepared
  rw [curl.options_setopts]
  rcases hk with hm | hm | hm | hm <;>
    simp [callOptions, methodOptions, EasyOptions.set, Overrides, hm]

/-- A GET selects the kind without a body, a POST or PUT the one with; a DELETE leaves the one it
found. -/
theorem kindOf_prepared (c : AlpacaClient curl) (h : curl.Handle) {call : ApiCall}
    (hk : KnownMethod call) :
    kindOf (c.prepared h call) =
      if call.method = "DELETE" then kindOf h else if call.method = "GET" then .get else .post := by
  unfold kindOf prepared
  rw [curl.options_setopts]
  rcases hk with hm | hm | hm | hm <;>
    simp [callOptions, methodOptions, EasyOptions.set, hm]

/-- The request of a call, by what the handle it finds was left with. -/
theorem sends_prepared_eq (c : AlpacaClient curl) (h : curl.Handle) {call : ApiCall}
    (hk : KnownMethod call) :
    curl.sends (c.prepared h call) =
      { method := if Overrides call then call.method else (customOf h).getD call.method
        url := c.urlOf call.endpoint
        headers := ["APCA-API-KEY-ID: " ++ c.apiKey, "APCA-API-SECRET-KEY: " ++ c.secretKey,
          "Content-Type: application/json"]
        body :=
          if call.method = "GET" then none
          else if call.method = "DELETE" then
            if kindOf h = .post then (curl.options h).postFields else none
          else some (.lent call.body) } := by
  unfold prepared customOf kindOf
  rw [curl.sends_eq, curl.options_setopts]
  rcases hk with hm | hm | hm | hm <;>
    simp [callOptions, methodOptions, EasyOptions.set, EasyOptions.request, Overrides, hm,
      RequestKind.word]

/-- A handle that selects a body has one to send. -/
def Stocked (h : curl.Handle) : Prop := kindOf h = .post → (curl.options h).postFields ≠ none

theorem stocked_init : Stocked curl.init := by
  simp [Stocked]

theorem Stocked.prepared {h : curl.Handle} (hs : Stocked h) (c : AlpacaClient curl) {call : ApiCall}
    (hk : KnownMethod call) : Stocked (curl.expire (c.prepared h call)) := by
  have hfields : kindOf (c.prepared h call) = .post →
      (curl.options (c.prepared h call)).postFields ≠ none := by
    unfold Stocked at hs
    unfold kindOf AlpacaClient.prepared at *
    rw [curl.options_setopts]
    rcases hk with hm | hm | hm | hm <;> simp [callOptions, methodOptions, EasyOptions.set, hm]
    -- a DELETE leaves the kind and the body as they were
    exact hs
  unfold Stocked
  rw [kindOf_expire, curl.options_expire, EasyOptions.expire, ne_eq, Option.map_eq_none_iff]
  exact hfields

/-- A call is carried exactly if the handle it finds has nothing left on it that shows: for a GET or
POST a custom method other than its own word, for a DELETE a body. -/
theorem carries_iff (c : AlpacaClient curl) {h : curl.Handle} (hs : Stocked h) {call : ApiCall}
    (hk : KnownMethod call) :
    Carries c call (curl.sends (c.prepared h call)) ↔
      (¬ Overrides call → customOf h = none ∨ customOf h = some call.method) ∧
        (call.method = "DELETE" → kindOf h = .get) := by
  have hfresh : c.freshRequest call = curl.sends (c.prepared curl.init call) := rfl
  rw [sends_prepared_eq c _ hk, customOf_init, kindOf_init] at hfresh
  rw [sends_prepared_eq c h hk]
  constructor
  · intro hc
    refine ⟨fun ho => ?_, fun hm => ?_⟩
    · have hmethod := hc.method
      rw [if_neg ho] at hmethod
      cases hcustom : customOf h with
      | none => exact .inl rfl
      | some m => exact .inr (by simpa [hcustom] using hmethod)
    · have hbody := congrArg HttpRequest.body (hc.fresh.trans hfresh)
      cases hkind : kindOf h with
      | get => rfl
      | post => exact absurd (by simpa [hm, hkind] using hbody) (hs hkind)
  · rintro ⟨hcustom, hkind⟩
    have hmethod : (if Overrides call then call.method else (customOf h).getD call.method) =
        call.method := by
      split
      · rfl
      · next ho => rcases hcustom ho with hn | hn <;> simp [hn]
    refine ⟨hmethod, rfl, fun hm => ?_, ?_⟩
    · rcases hm with hm | hm <;> simp [hm]
    · rw [hfresh, hmethod]
      by_cases hm : call.method = "DELETE"
      · simp [hkind hm]
      · simp [hm]

theorem wireLog_cons (c : AlpacaClient curl) (h : curl.Handle) (call : ApiCall)
    (transfer : Transfer) (rest : List (ApiCall × Transfer)) (hc : c.handle = some h) :
    c.wireLog ((call, transfer) :: rest) =
      curl.sends (c.prepared h call) ::
        { c with handle := some (curl.expire (c.prepared h call)) }.wireLog rest := by
  simp [wireLog, sendRequest, hc, prepared]

/-- Calls leave the credentials and the base URL alone. -/
theorem carries_withHandle (c : AlpacaClient curl) (h : Option curl.Handle) (call : ApiCall)
    (sent : HttpRequest) : Carries { c with handle := h } call sent ↔ Carries c call sent :=
  ⟨fun hc => ⟨hc.method, hc.url, hc.body, hc.fresh⟩,
    fun hc => ⟨hc.method, hc.url, hc.body, hc.fresh⟩⟩

/-- All calls of a sequence are carried by the requests on the wire, one by one. -/
def CarriesAll (c : AlpacaClient curl) (calls : List (ApiCall × Transfer)) : Prop :=
  List.Forall₂ (fun x sent => Carries c x.1 sent) calls (c.wireLog calls)

theorem carriesAll_cons (c : AlpacaClient curl) (h : curl.Handle) (call : ApiCall)
    (transfer : Transfer) (rest : List (ApiCall × Transfer)) (hc : c.handle = some h) :
    c.CarriesAll ((call, transfer) :: rest) ↔
      Carries c call (curl.sends (c.prepared h call)) ∧
        { c with handle := some (curl.expire (c.prepared h call)) }.CarriesAll rest := by
  unfold CarriesAll
  rw [wireLog_cons c h call transfer rest hc, List.forall₂_cons]
  simp only [carries_withHandle]

/-! ## What earlier calls leave on the handle -/

/-- Nothing that the calls `past` left on the handle shows in the request of `call`: a GET or POST
comes after no PUT or DELETE, and before a DELETE the last call of another kind is a GET, if there is
one. -/
structure Undisturbed (past : List ApiCall) (call : ApiCall) : Prop where
  word : ¬ Overrides call → ∀ prev ∈ past, ¬ Overrides prev
  body : call.method = "DELETE" →
    ∀ prev ∈ (past.filter (·.method ≠ "DELETE")).getLast?, prev.method = "GET"

/-- Every call of the sequence finds the handle so. -/
def UndisturbedAll (calls : List (ApiCall × Transfer)) : Prop :=
  Guarded (fun past x => past ++ [x.1]) (fun past x => Undisturbed past x.1) [] calls

/-- The handle as the calls `past` leave it. -/
structure LeftBy (past : List ApiCall) (h : curl.Handle) : Prop where
  custom : customOf h = (past.filter (Overrides ·)).getLast?.map ApiCall.method
  kind : kindOf h = .get ↔
    ∀ prev ∈ (past.filter (·.method ≠ "DELETE")).getLast?, prev.method = "GET"
  stocked : Stocked h

theorem leftBy_init : LeftBy [] curl.init := by
  refine ⟨?_, ?_, stocked_init⟩ <;> simp

theorem LeftBy.call {past : List ApiCall} {h : curl.Handle} (hl : LeftBy past h)
    (c : AlpacaClient curl) {call : ApiCall} (hk : KnownMethod call) :
    LeftBy (past ++ [call]) (curl.expire (c.prepared h call)) := by
  refine ⟨?_, ?_, hl.stocked.prepared c hk⟩
  · rw [customOf_expire, c.customOf_prepared h hk, hl.custom, List.filter_append]
    by_cases ho : Overrides call <;> simp [ho]
  · rw [kindOf_expire, c.kindOf_prepared h hk, List.filter_append]
    by_cases hm : call.method = "DELETE"
    · simpa [hm] using hl.kind
    · by_cases hg : call.method = "GET" <;> simp [hm, hg]

/-- What a GET or POST has to find on the handle. -/
theorem LeftBy.custom_iff {past : List ApiCall} {h : curl.Handle} (hl : LeftBy past h)
    {call : ApiCall} (ho : ¬ Overrides call) :
    customOf h = none ∨ customOf h = some call.method ↔ ∀ prev ∈ past, ¬ Overrides prev := by
  rw [hl.custom]
  cases hlast : (past.filter (Overrides ·)).getLast? with
  | none =>
    rw [List.getLast?_eq_none_iff, List.filter_eq_nil_iff] at hlast
    simpa using hlast
  | some prev =>
    obtain ⟨hmem, hprev⟩ := List.mem_filter.1 (List.mem_of_getLast? hlast)
    have hprev : Overrides prev := by simpa using hprev
    refine iff_of_false ?_ fun hall => hall prev hmem hprev
    rintro (hn | hn)
    · cases hn
    · -- the word left is PUT or DELETE, the call's own is not
      have hword : prev.method = call.method := Option.some.inj hn
      unfold Overrides at ho hprev
      exact ho (hword ▸ hprev)

theorem LeftBy.carries_iff {past : List ApiCall} {h : curl.Handle} (hl : LeftBy past h)
    (c : AlpacaClient curl) {call : ApiCall} (hk : KnownMethod call) :
    Carries c call (curl.sends (c.prepared h call)) ↔ Undisturbed past call := by
  rw [c.carries_iff hl.stocked hk]
  constructor
  · rintro ⟨hword, hbody⟩
    exact ⟨fun ho => (hl.custom_iff ho).1 (hword ho), fun hm => hl.kind.1 (hbody hm)⟩
  · rintro ⟨hword, hbody⟩
    exact ⟨fun ho => (hl.custom_iff ho).2 (hword ho), fun hm => hl.kind.2 (hbody hm)⟩

theorem carriesAll_iff_from (c : AlpacaClient curl) (h : curl.Handle) (hc : c.handle = some h)
    {past : List ApiCall} (hl : LeftBy past h) (calls : List (ApiCall × Transfer))
    (hk : ∀ x ∈ calls, KnownMethod x.1) :
    c.CarriesAll calls ↔
      Guarded (fun past x => past ++ [x.1]) (fun past x => Undisturbed past x.1) past calls := by
  induction calls generalizing c h past with
  | nil => simp [CarriesAll, wireLog]
  | cons x rest ih =>
    obtain ⟨call, transfer⟩ := x
    obtain ⟨hk1, hk2⟩ := List.forall_mem_cons.1 hk
    rw [carriesAll_cons c h call transfer rest hc, guarded_cons, hl.carries_iff c hk1,
      ih _ _ rfl (hl.call c hk1) hk2]

/-- **Requests of a client.** On a fresh client, every call of a sequence of GETs, POSTs, PUTs and
DELETEs leaves with its own method, URL and body, as it would on a fresh handle, if and only if no
GET or POST comes after a PUT or DELETE, and no DELETE after a POST or PUT without a GET between
them. -/
theorem carriesAll_iff (curl : CurlEasy) (apiKey secretKey : String) (paper : Bool)
    (calls : List (ApiCall × Transfer)) (hk : ∀ x ∈ calls, KnownMethod x.1) :
    (new curl apiKey secretKey paper).CarriesAll calls ↔ UndisturbedAll calls :=
  carriesAll_iff_from (new curl apiKey secretKey paper) curl.init rfl leftBy_init calls hk

def cancelThenRead : List (ApiCall × Transfer) :=
  [(cancelOrder "42", .response 204 ""), (getPositions, .response 200 "[]")]

theorem cancelThenRead_known : ∀ x ∈ cancelThenRead, KnownMethod x.1 := by
  simp [cancelThenRead, cancelOrder, getPositions, KnownMethod]

/-- Reading the positions after cancelling an order sends a DELETE of all positions. -/
theorem cancelThenRead_not_carriesAll :
    (∀ x ∈ cancelThenRead, KnownMethod x.1) ∧
      ((new .optionRecord "key" "secret" true).wireLog cancelThenRead).map
          (fun sent => (sent.method, sent.url)) =
        [("DELETE", "https://paper-api.alpaca.markets/v2/orders/42"),
          ("DELETE", "https://paper-api.alpaca.markets/v2/positions")] ∧
      ¬ (new .optionRecord "key" "secret" true).CarriesAll cancelThenRead := by
  refine ⟨cancelThenRead_known, by decide +kernel, fun h => ?_⟩
  have hread := List.Forall₂.get h (i := 1) (by decide) (by decide +kernel)
  exact absurd hread.method (by decide +kernel)

theorem readThenCancel_carriesAll :
    (new .optionRecord "key" "secret" true).CarriesAll cancelThenRead.reverse :=
  (carriesAll_iff .optionRecord "key" "secret" true cancelThenRead.reverse
    fun x hx => cancelThenRead_known x (List.mem_reverse.1 hx)).2 (by
      have hread : Undisturbed [] getPositions := ⟨by simp, by simp⟩
      have hcancel : Undisturbed [getPositions] (cancelOrder "42") :=
        ⟨by simp [Overrides, cancelOrder], by simp [getPositions]⟩
      simp [cancelThenRead, UndisturbedAll, hread, hcancel])

/-- A DELETE right after a POST goes out with the pointer to the body of the latter. -/
example :
    ((new .optionRecord "key" "secret" true).wireLog
        [(placeOrder "{}", .response 200 "{}"), (cancelOrder "42", .response 204 "")]).map
      (fun sent => (sent.method, sent.body)) =
        [("POST", some (.lent "{}")), ("DELETE", some .dangling)] := by
  decide +kernel

end AlpacaClient

end TradingTerminal
