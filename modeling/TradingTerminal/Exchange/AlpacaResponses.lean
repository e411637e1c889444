import TradingTerminal.Exchange.AlpacaRequests
import TradingTerminal.Lib.Double
import TradingTerminal.Lib.Json
import TradingTerminal.Lib.Throwing

/-!
# Responses of the Alpaca API

`AlpacaClient::authenticated_request` of `exchange/alpaca_client.cpp` and what the calls make of its
answer. The JSON library is a parameter, and so is its parser, `none` where it throws; the exceptions
of the parser are caught, and a failed transfer, an error status, an empty text and a text that does
not parse all come out as the empty object. The calls let the exceptions of the conversions escape.

`answers_iff` says which responses the calls come back from, and `reports_iff` for which responses
`cancel_order` and `close_position` report what happened.
-/

namespace TradingTerminal

open Lib

/-- What escapes from a call. -/
inductive Thrown where
  | json (e : JsonError)
  | stod (e : ConversionError)
  deriving DecidableEq, Repr

/-- The fields of `AccountInfo` that `get_account` sets. -/
structure AccountInfo where
  id : String := ""
  status : String := ""
  cash : Double := .finite 0
  buyingPower : Double := .finite 0
  portfolioValue : Double := .finite 0
  longMarketValue : Double := .finite 0
  shortMarketValue : Double := .finite 0
  equity : Double := .finite 0
  lastEquity : Double := .finite 0
  initialMargin : Double := .finite 0
  maintenanceMargin : Double := .finite 0
  deriving DecidableEq, Repr

/-- An `Order` as the exchange lists it. -/
structure ExchangeOrder where
  alpacaId : String := ""
  clientOrderId : String := ""
  symbol : String := ""
  quantity : Double := .finite 0
  filledQuantity : Double := .finite 0
  isBuy : Bool := true
  type : String := "market"
  tif : String := "day"
  status : String := "new"
  price : Double := .finite 0
  deriving DecidableEq, Repr

/-! ## Reading a JSON value -/

section Reading

variable (lib : JsonLibrary)

/-- `resp.value(key, default)` -/
def textValue (resp : Json) (key default : String) : Except Thrown String :=
  (lib.value resp key default).mapError .json

def stodText (s : String) : Except Thrown Double := (stodDouble s.toList).mapError .stod

/-- `std::stod(resp.value(key, "0"))` -/
def numberValue (resp : Json) (key : String) : Except Thrown Double := do
  stodText (← textValue lib resp key "0")

/-- `get_account` on the parsed answer. -/
def readAccount (resp : Json) : Except Thrown AccountInfo :=
  if resp.empty then .ok {}
  else do
    let id ← textValue lib resp "id" ""
    let status ← textValue lib resp "status" ""
    let cash ← numberValue lib resp "cash"
    let buyingPower ← numberValue lib resp "buying_power"
    let portfolioValue ← numberValue lib resp "portfolio_value"
    let longMarketValue ← numberValue lib resp "long_market_value"
    let shortMarketValue ← numberValue lib resp "short_market_value"
    let equity ← numberValue lib resp "equity"
    let lastEquity ← numberValue lib resp "last_equity"
    let initialMargin ← numberValue lib resp "initial_margin"
    let maintenanceMargin ← numberValue lib resp "maintenance_margin"
    return { id, status, cash, buyingPower, portfolioValue, longMarketValue, shortMarketValue,
             equity, lastEquity, initialMargin, maintenanceMargin }

/-- The limit price of an order: nothing is read where it is missing or `null`. -/
def limitPrice (item : Json) : Except Thrown Double :=
  match item.find "limit_price" with
  | none => .ok (.finite 0)
  | some price =>
    if price.isNull then .ok (.finite 0)
    else do stodText (← (lib.getString price).mapError .json)

/-- One turn of the loop of `get_orders`. -/
def readOrder (item : Json) : Except Thrown ExchangeOrder := do
  let alpacaId ← textValue lib item "id" ""
  let clientOrderId ← textValue lib item "client_order_id" ""
  let symbol ← textValue lib item "symbol" ""
  let quantity ← numberValue lib item "qty"
  let filledQuantity ← numberValue lib item "filled_qty"
  let side ← textValue lib item "side" ""
  let type ← textValue lib item "type" "market"
  let tif ← textValue lib item "time_in_force" "day"
  let status ← textValue lib item "status" ""
  let price ← limitPrice lib item
  return { alpacaId, clientOrderId, symbol, quantity, filledQuantity, isBuy := side = "buy", type,
           tif, status, price }

/-- `get_orders` on the parsed answer. -/
def readOrders : Json → Except Thrown (List ExchangeOrder)
  | .array items => items.mapM (readOrder lib)
  | _ => .ok []

end Reading

/-! ## Values that can be read -/

/-- A stored value of the key, if there is one, is a text. -/
def TextField (fields : List (String × Json)) (key : String) : Prop :=
  ∀ v, fields.lookup key = some v → ∃ s, v = .string s

/-- A stored value of the key, if there is one, is a text that a number begins. -/
def NumberField (fields : List (String × Json)) (key : String) : Prop :=
  ∀ v, fields.lookup key = some v → ∃ s d, v = .string s ∧ stodDouble s.toList = .ok d

def AccountShape (resp : Json) : Prop :=
  ∃ fields, resp = .object fields ∧ (∀ key ∈ ["id", "status"], TextField fields key) ∧
    ∀ key ∈ ["cash", "buying_power", "portfolio_value", "long_market_value", "short_market_value",
      "equity", "last_equity", "initial_margin", "maintenance_margin"], NumberField fields key

def OrderIdShape (resp : Json) : Prop := ∃ fields, resp = .object fields ∧ TextField fields "id"

/-- The limit price of a market order is missing or `null`. -/
def OrderShape (item : Json) : Prop :=
  ∃ fields, item = .object fields ∧
    (∀ key ∈ ["id", "client_order_id", "symbol", "side", "type", "time_in_force", "status"],
      TextField fields key) ∧
    (∀ key ∈ ["qty", "filled_qty"], NumberField fields key) ∧
    (fields.lookup "limit_price" = some .null ∨ NumberField fields "limit_price")

def OrdersShape (resp : Json) : Prop :=
  ∃ items, resp = .array items ∧ ∀ item ∈ items, OrderShape item

variable {lib : JsonLibrary}

theorem textValue_object (fields : List (String × Json)) (key default : String) :
    textValue lib (.object fields) key default =
      (((fields.lookup key).map lib.getString).getD (.ok default)).mapError .json := by
  rw [textValue, lib.value_object]

theorem textValue_of_not_object {resp : Json} (h : ∀ fields, resp ≠ .object fields)
    (key default : String) :
    textValue lib resp key default = .error (.json .typeError306) := by
  rw [textValue, lib.value_other resp key default h]
  rfl

/-- What starts with reading a text from a value that is no object throws. -/
theorem not_returns_of_not_object {α : Type} {resp : Json} (h : ¬ ∃ fields, resp = .object fields)
    (key default : String) (f : String → Except Thrown α) :
    ¬ Returns (textValue lib resp key default >>= f) := by
  rw [returns_bind, textValue_of_not_object (not_exists.1 h)]
  rintro ⟨text, htext, -⟩
  cases htext

theorem returns_textValue {fields : List (String × Json)} {key default : String} :
    Returns (textValue lib (.object fields) key default) ↔ TextField fields key := by
  rw [textValue_object, returns_mapError, TextField]
  cases fields.lookup key with
  | none => simp
  | some v => cases v <;> simp [lib.getString_eq, Json.getString]

theorem returns_stodText {s : String} : Returns (stodText s) ↔ ∃ d, stodDouble s.toList = .ok d :=
  returns_mapError

theorem returns_numberValue {fields : List (String × Json)} {key : String} :
    Returns (numberValue lib (.object fields) key) ↔ NumberField fields key := by
  have hzero : stodDouble ['0'] = .ok (.finite 0) := by decide +kernel
  rw [numberValue, returns_bind, textValue_object, NumberField]
  cases fields.lookup key with
  | none => simp [Except.mapError, returns_stodText, hzero]
  | some v =>
    cases v <;> simp [lib.getString_eq, Except.mapError, Json.getString, returns_stodText]

theorem returns_limitPrice {fields : List (String × Json)} :
    Returns (limitPrice lib (.object fields)) ↔
      fields.lookup "limit_price" = some .null ∨ NumberField fields "limit_price" := by
  unfold limitPrice NumberField
  rw [Json.find_object]
  cases fields.lookup "limit_price" with
  | none => simp
  | some v =>
    cases v <;>
      simp [lib.getString_eq, Json.isNull, Json.getString, Except.mapError, returns_stodText,
        returns_bind]

/-- `get_account` comes back from an empty value, and from an account. -/
theorem returns_readAccount {resp : Json} :
    Returns (readAccount lib resp) ↔ resp.empty = true ∨ AccountShape resp := by
  unfold readAccount
  by_cases hempty : resp.empty = true
  · simp [hempty]
  rw [if_neg hempty, or_iff_right hempty]
  by_cases hobject : ∃ fields, resp = .object fields
  · obtain ⟨fields, rfl⟩ := hobject
    simp only [returns_bind, returns_pure, and_true, exists_and_right]
    simp only [← Returns.eq_def, returns_textValue, returns_numberValue]
    simp only [AccountShape, Json.object.injEq, exists_eq_left', List.forall_mem_cons,
      List.not_mem_nil, false_implies, implies_true, and_true, and_assoc]
  · exact iff_of_false (not_returns_of_not_object hobject _ _ _)
      fun h => h.elim fun fields hfields => hobject ⟨fields, hfields.1⟩

theorem returns_readOrder {item : Json} : Returns (readOrder lib item) ↔ OrderShape item := by
  unfold readOrder
  by_cases hobject : ∃ fields, item = .object fields
  · obtain ⟨fields, rfl⟩ := hobject
    simp only [returns_bind, returns_pure, and_true, exists_and_right]
    simp only [← Returns.eq_def, returns_textValue, returns_numberValue, returns_limitPrice]
    simp only [OrderShape, Json.object.injEq, exists_eq_left', List.forall_mem_cons,
      List.not_mem_nil, false_implies, implies_true, and_true, and_assoc]
    tauto
  · exact iff_of_false (not_returns_of_not_object hobject _ _ _)
      fun h => h.elim fun fields hfields => hobject ⟨fields, hfields.1⟩

theorem returns_readOrders {resp : Json} :
    Returns (readOrders lib resp) ↔ (∀ items, resp ≠ .array items) ∨ OrdersShape resp := by
  cases resp with
  | array items =>
    simp [readOrders, returns_mapM, returns_readOrder, OrdersShape]
  | _ => simp [readOrders]

theorem returns_orderId {resp : Json} : Returns (textValue lib resp "id" "") ↔ OrderIdShape resp := by
  by_cases hobject : ∃ fields, resp = .object fields
  · obtain ⟨fields, rfl⟩ := hobject
    simp [OrderIdShape, returns_textValue]
  · have hnot : ∀ fields, resp ≠ .object fields := not_exists.1 hobject
    rw [textValue_of_not_object hnot]
    exact iff_of_false (not_returns_error _) fun h => h.elim fun fields h => hnot fields h.1

namespace AlpacaClient

variable {curl : CurlEasy}

section Calls

variable (lib : JsonLibrary) (parse : String → Option Json) (c : AlpacaClient curl)
  (transfer : Transfer)

/-- `AlpacaClient::authenticated_request`, by the answer it makes of the transfer. -/
def authenticatedRequest (call : ApiCall) : Json :=
  let resp := (c.sendRequest call transfer).2.1
  if resp = "" then .object [] else (parse resp).getD (.object [])

def getAccountResult : Except Thrown AccountInfo :=
  readAccount lib (c.authenticatedRequest parse transfer getAccount)

/-- `place_order` with the dumped body of the order. -/
def placeOrderResult (body : String) : Except Thrown String :=
  textValue lib (c.authenticatedRequest parse transfer (placeOrder body)) "id" ""

def getOrdersResult (openOnly : Bool) : Except Thrown (List ExchangeOrder) :=
  readOrders lib (c.authenticatedRequest parse transfer (getOrders openOnly))

def cancelOrderResult (orderId : String) : Bool :=
  let resp := c.authenticatedRequest parse transfer (cancelOrder orderId)
  !resp.empty || resp.isNull

def closePositionResult (symbol : String) : Bool :=
  let resp := c.authenticatedRequest parse transfer (closePosition symbol)
  !resp.empty

/-! ## What was received -/

/-- The transfer went through, with a status code of success. -/
def Succeeded : Prop :=
  c.handle.isSome = true ∧ ∃ httpCode text, transfer = .response httpCode text ∧
    200 ≤ httpCode ∧ httpCode ≤ 299

/-- It did, and its text is that of a JSON value. -/
def Received (v : Json) : Prop :=
  c.handle.isSome = true ∧ ∃ httpCode text, transfer = .response httpCode text ∧
    200 ≤ httpCode ∧ httpCode ≤ 299 ∧ text ≠ "" ∧ parse text = some v

variable {lib parse c transfer}

theorem Received.succeeded {v : Json} (h : Received parse c transfer v) : Succeeded c transfer := by
  obtain ⟨hhandle, httpCode, text, htransfer, hlow, hhigh, -, -⟩ := h
  exact ⟨hhandle, httpCode, text, htransfer, hlow, hhigh⟩

theorem authenticatedRequest_of_received {v : Json} (h : Received parse c transfer v)
    (call : ApiCall) : c.authenticatedRequest parse transfer call = v := by
  obtain ⟨hhandle, httpCode, text, rfl, hlow, hhigh, htext, hparse⟩ := h
  obtain ⟨handle, hhandle⟩ := Option.isSome_iff_exists.1 hhandle
  have hcode : ¬ (httpCode < 200 ∨ httpCode ≥ 300) := by omega
  simp only [authenticatedRequest, sendRequest, hhandle, if_neg hcode, if_neg htext, hparse,
    Option.getD_some]

/-- Everything else is taken for the empty object. -/
theorem authenticatedRequest_of_not_received (h : ∀ v, ¬ Received parse c transfer v)
    (call : ApiCall) : c.authenticatedRequest parse transfer call = .object [] := by
  unfold authenticatedRequest sendRequest
  cases hhandle : c.handle with
  | none => rfl
  | some handle =>
    cases htransfer : transfer with
    | failed => rfl
    | response httpCode text =>
      dsimp only
      by_cases hcode : httpCode < 200 ∨ httpCode ≥ 300
      · rw [if_pos hcode, if_pos rfl]
      · rw [if_neg hcode]
        by_cases htext : text = ""
        · rw [if_pos htext]
        · cases hparse : parse text with
          | none => rw [if_neg htext, Option.getD_none]
          | some v =>
            exact absurd ⟨by rw [hhandle]; rfl, httpCode, text, htransfer, by omega, by omega, htext,
              hparse⟩ (h v)

/-! ## Calls on the trading threads -/

/-- The call comes back, with its failure value where no value of the expected shape was received. -/
def Answers {α : Type} (result : Except Thrown α) (expected : Prop) (failure : α) : Prop :=
  ∃ a, result = .ok a ∧ (¬ expected → a = failure)

/-- A call that returns its failure value from the empty object and from values with `p`, and reads
those of its shape. -/
theorem answers_iff_of_read {α : Type} (read : Json → Except Thrown α) {shape p : Json → Prop}
    {failure : α} (hreturns : ∀ v, Returns (read v) ↔ p v ∨ shape v)
    (hfailure : ∀ v, p v → read v = .ok failure) (hempty : read (.object []) = .ok failure)
    (call : ApiCall) :
    Answers (read (c.authenticatedRequest parse transfer call))
        (∃ v, Received parse c transfer v ∧ shape v) failure ↔
      ∀ v, Received parse c transfer v → p v ∨ shape v := by
  constructor
  · rintro ⟨a, ha, -⟩ v hv
    rw [authenticatedRequest_of_received hv] at ha
    exact (hreturns v).1 ⟨a, ha⟩
  · intro hall
    by_cases hreceived : ∃ v, Received parse c transfer v
    · obtain ⟨v, hv⟩ := hreceived
      rw [authenticatedRequest_of_received hv]
      obtain ⟨a, ha⟩ := (hreturns v).2 (hall v hv)
      refine ⟨a, ha, fun hnot => ?_⟩
      rcases hall v hv with hp | hshape
      · exact Except.ok.inj (ha.symm.trans (hfailure v hp))
      · exact absurd ⟨v, hv, hshape⟩ hnot
    · rw [authenticatedRequest_of_not_received (not_exists.1 hreceived)]
      exact ⟨failure, hempty, fun _ => rfl⟩

/-- **Responses and exceptions.** `get_account`, `place_order` and `get_orders` come back from a
response, with their failure values where it has not the expected shape, if and only if a received
value is an account or empty, an object whose `id` is a text, and no array or a list of orders. -/
theorem answers_iff (lib : JsonLibrary) (parse : String → Option Json) (c : AlpacaClient curl) (transfer : Transfer)
    (body : String) (openOnly : Bool) :
    (Answers (c.getAccountResult lib parse transfer)
          (∃ v, Received parse c transfer v ∧ AccountShape v) {} ↔
        ∀ v, Received parse c transfer v → v.empty = true ∨ AccountShape v) ∧
      (Answers (c.placeOrderResult lib parse transfer body)
          (∃ v, Received parse c transfer v ∧ OrderIdShape v) "" ↔
        ∀ v, Received parse c transfer v → OrderIdShape v) ∧
      (Answers (c.getOrdersResult lib parse transfer openOnly)
          (∃ v, Received parse c transfer v ∧ OrdersShape v) [] ↔
        ∀ v, Received parse c transfer v → (∀ items, v ≠ .array items) ∨ OrdersShape v) := by
  refine ⟨?_, ?_, ?_⟩
  · exact answers_iff_of_read (readAccount lib) (fun v => returns_readAccount) (fun v hv => if_pos hv) rfl _
  · have hreturns : ∀ v, Returns (textValue lib v "id" "") ↔ False ∨ OrderIdShape v := by
      intro v
      rw [false_or, returns_orderId]
    have h : Answers (c.placeOrderResult lib parse transfer body) _ "" ↔ _ :=
      answers_iff_of_read (fun v => textValue lib v "id" "") hreturns (fun v hv => hv.elim)
        (by rw [textValue_object]; rfl) _
    simpa only [false_or] using h
  · refine answers_iff_of_read (readOrders lib) (fun v => returns_readOrders) (fun v hv => ?_) rfl _
    cases v with
    | array items => exact absurd rfl (hv items)
    | _ => rfl

/-- The parser on the text of an array that holds one `null`. -/
def parseNullArray (text : String) : Option Json :=
  if text = "[null]" then some (.array [.null]) else none

/-- On that text all three calls throw. -/
theorem nullArray_not_answers :
    let c := new .optionRecord "key" "secret" true
    let transfer := Transfer.response 200 "[null]"
    ¬ Answers (c.getAccountResult .documented parseNullArray transfer)
        (∃ v, Received parseNullArray c transfer v ∧ AccountShape v) {} ∧
      ¬ Answers (c.placeOrderResult .documented parseNullArray transfer "")
        (∃ v, Received parseNullArray c transfer v ∧ OrderIdShape v) "" ∧
      ¬ Answers (c.getOrdersResult .documented parseNullArray transfer true)
        (∃ v, Received parseNullArray c transfer v ∧ OrdersShape v) [] := by
  intro c transfer
  have hreceived : Received parseNullArray c transfer (.array [.null]) :=
    ⟨rfl, 200, "[null]", rfl, by decide, by decide, by decide, if_pos rfl⟩
  refine ⟨?_, ?_, ?_⟩
  · rintro ⟨a, ha, -⟩
    rw [getAccountResult, authenticatedRequest_of_received hreceived] at ha
    cases ha
  · rintro ⟨a, ha, -⟩
    rw [placeOrderResult, authenticatedRequest_of_received hreceived] at ha
    cases ha
  · rintro ⟨a, ha, -⟩
    rw [getOrdersResult, authenticatedRequest_of_received hreceived] at ha
    cases ha

/-! ## Cancel and close -/

/-- A report that is false for the empty object is right exactly if it is true of what was received
with success. -/
theorem report_iff_of_read (report : Json → Bool) (hempty : report (.object []) = false)
    (call : ApiCall) :
    ((report (c.authenticatedRequest parse transfer call) = true ↔ Succeeded c transfer) ↔
      (Succeeded c transfer → ∃ v, Received parse c transfer v ∧ report v = true)) := by
  by_cases hreceived : ∃ v, Received parse c transfer v
  · obtain ⟨v, hv⟩ := hreceived
    rw [authenticatedRequest_of_received hv]
    constructor
    · intro hreport _
      exact ⟨v, hv, hreport.2 hv.succeeded⟩
    · intro hreport
      obtain ⟨w, hw, htrue⟩ := hreport hv.succeeded
      have heq := authenticatedRequest_of_received hw call
      rw [authenticatedRequest_of_received hv] at heq
      exact iff_of_true (heq ▸ htrue) hv.succeeded
  · rw [authenticatedRequest_of_not_received (not_exists.1 hreceived), hempty]
    constructor
    · intro hreport hsucceeded
      exact absurd (hreport.2 hsucceeded) (by simp)
    · intro hreport
      refine iff_of_false (by simp) fun hsucceeded => ?_
      obtain ⟨v, hv, -⟩ := hreport hsucceeded
      exact hreceived ⟨v, hv⟩

/-- **Cancel and close.** They return true exactly for the transfers with a status of success, if and
only if such a transfer brings the text of a JSON value with something in it; for `cancel_order` that
value may also be `null`. -/
theorem reports_iff (parse : String → Option Json) (c : AlpacaClient curl) (transfer : Transfer)
    (orderId symbol : String) :
    ((c.cancelOrderResult parse transfer orderId = true ↔ Succeeded c transfer) ↔
        (Succeeded c transfer →
          ∃ v, Received parse c transfer v ∧ (v.empty = false ∨ v.isNull = true))) ∧
      ((c.closePositionResult parse transfer symbol = true ↔ Succeeded c transfer) ↔
        (Succeeded c transfer → ∃ v, Received parse c transfer v ∧ v.empty = false)) := by
  constructor
  · simp only [← Bool.not_eq_true', ← Bool.or_eq_true]
    exact report_iff_of_read (fun resp => !resp.empty || resp.isNull) rfl _
  · simp only [← Bool.not_eq_true']
    exact report_iff_of_read (fun resp => !resp.empty) rfl _

/-- A cancelled order and a closed position, whose successes come without a text, are reported as
failures. -/
theorem noContent_not_reported :
    let c := new .optionRecord "key" "secret" true
    let transfer := Transfer.response 204 ""
    ¬ (c.cancelOrderResult (fun _ => none) transfer "42" = true ↔ Succeeded c transfer) ∧
      ¬ (c.closePositionResult (fun _ => none) transfer "AAPL" = true ↔ Succeeded c transfer) := by
  intro c transfer
  have hsucceeded : Succeeded c transfer := ⟨rfl, 204, "", rfl, by decide, by decide⟩
  exact ⟨fun h => absurd (h.2 hsucceeded) (by decide +kernel),
    fun h => absurd (h.2 hsucceeded) (by decide +kernel)⟩

end Calls

end AlpacaClient

end TradingTerminal
