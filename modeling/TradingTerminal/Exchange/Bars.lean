import TradingTerminal.Exchange.StreamMessages
import TradingTerminal.Exchange.WebSocketHandshake
import TradingTerminal.Lib.Numeral

/-!
# Bars, and the instants of market data

`AlpacaClient::get_bars` reads the bars of a response in one `try` block: of a response with one bar
that throws no bar is returned. It takes the instant of a bar from a text, with `std::stoull`, while
the stream takes the instants of its messages from numbers. Of instants that are written as texts,
year first, `get_bars` keeps the year, and the stream hands no tick to anyone (`datedTexts_read`).
-/

namespace TradingTerminal.WebSocket

open Lib

structure Bar where
  symbol : String
  timestamp : UInt64
  opening : ℚ
  high : ℚ
  low : ℚ
  close : ℚ
  volume : ℚ
  vwap : ℚ
  tradeCount : Int
  deriving DecidableEq, Repr

/-- What ends the loop over the bars: an exception, or a key that a constant object lacks. -/
inductive BarFault where
  | thrown
  | missingKey
  deriving DecidableEq, Repr

def BarFault.of : MessageFault → BarFault
  | .json _ => .thrown
  | .missingKey => .missingKey

section Reading

variable (lib : JsonLibrary)

def toInt (v : Json) : Except MessageFault Int := (lib.getInt v).mapError .json

/-- The fields of a bar that stand behind its instant. -/
def barFields (symbol : String) (b : Json) : Except MessageFault Bar := do
  let opening ← toDouble lib (← field b "o")
  let high ← toDouble lib (← field b "h")
  let low ← toDouble lib (← field b "l")
  let close ← toDouble lib (← field b "c")
  let volume ← toDouble lib (← field b "v")
  let vwap ← toDouble lib (← field b "vw")
  let tradeCount ← toInt lib (← field b "n")
  return { symbol, timestamp := 0, opening, high, low, close, volume, vwap, tradeCount }

/-- The body of the loop of `get_bars`. -/
def readBar (symbol : String) (b : Json) : Except BarFault Bar :=
  match lib.value b "t" "0" with
  | .error _ => .error .thrown
  | .ok text =>
    match stoull text.toList with
    | none => .error .thrown
    | some timestamp => ((barFields lib symbol b).map fun bar => { bar with timestamp }).mapError .of

variable (parse : String → Option Json)

/-- What is under `bars` in a response, if it is read that far. -/
def barsIn (response : String) : List Json :=
  if response = "" then []
  else
    match parse response with
    | some (.object fields) => ((fields.lookup "bars").map Json.items).getD []
    | _ => []

/-- `AlpacaClient::get_bars` from the response on; `none` where its behaviour is undefined. -/
def getBars (symbol response : String) : Option (List Bar) :=
  match untilError (fun b => ofExcept (readBar lib symbol b)) (barsIn parse response) with
  | (bars, none) => some bars
  | (_, some .thrown) => some []
  | (_, some .missingKey) => none

/-- `AlpacaClient::get_latest_tick` from the response on. Whatever throws, the tick is the empty
one. -/
def getLatestTick (symbol response : String) (now : UInt64) : Tick :=
  if response = "" then {}
  else
    match parse response with
    | some (.object fields) =>
      match fields.lookup "trade" with
      | some (.object trade) =>
        match (trade.lookup "p").map lib.getDouble, (trade.lookup "s").map lib.getDouble with
        | some (.ok price), some (.ok volume) =>
          { symbol, timestamp := now, price, volume, bid := price * (9999 / 10000),
            ask := price * (10001 / 10000) }
        | _, _ => {}
      | _ => {}
    | _ => {}

end Reading

/-- A trade that is asked for gives the tick it gives in the stream, but for the instant. -/
theorem tradeTick_eq_getLatestTick {lib : JsonLibrary} {parse : String → Option Json}
    {symbol response : String} {fields trade msg : List (String × Json)} {price volume time : ℚ}
    {timestamp : UInt64} (hresponse : response ≠ "")
    (hparse : parse response = some (.object fields))
    (htrade : fields.lookup "trade" = some (.object trade))
    (hp : trade.lookup "p" = some (.number price)) (hs : trade.lookup "s" = some (.number volume))
    (hmsg : ["S", "p", "s", "t"].map (msg.lookup ·) =
      [some (.string symbol), some (.number price), some (.number volume), some (.number time)])
    (htime : lib.getUInt64 (.number time) = .ok timestamp) (now : UInt64) :
    (tradeTick lib (.object msg)).map (fun tick => { tick with timestamp := now }) =
      .ok (getLatestTick lib parse symbol response now) := by
  simp only [List.map_cons, List.map_nil, List.cons.injEq, and_true] at hmsg
  obtain ⟨hsymbol, hprice, hvolume, hstored⟩ := hmsg
  rw [getLatestTick, if_neg hresponse, hparse]
  dsimp only
  rw [htrade]
  dsimp only
  rw [hp, hs, Option.map_some, Option.map_some, lib.getDouble_number, lib.getDouble_number]
  simp only [tradeTick, field, toText, toDouble, toUInt64, Json.find_object, hsymbol, hprice,
    hvolume, hstored]
  dsimp only [bind, Except.bind]
  rw [lib.getString_string, lib.getDouble_number, lib.getDouble_number, htime]
  rfl

/-! ## All or none -/

variable {lib : JsonLibrary} {parse : String → Option Json} {symbol response : String}
  {bars : List Bar}

/-- What `get_bars` returns are the bars of the response, all of them read, in
their order; or it is nothing, and behind bars that are read there is one that throws. -/
theorem getBars_eq_some :
    getBars lib parse symbol response = some bars ↔
      List.Forall₂ (fun b bar => readBar lib symbol b = .ok bar) (barsIn parse response) bars ∨
        bars = [] ∧ ∃ before b after, barsIn parse response = before ++ b :: after ∧
          (∀ b ∈ before, Returns (readBar lib symbol b)) ∧ readBar lib symbol b = .error .thrown := by
  have hall : untilError (fun b => ofExcept (readBar lib symbol b)) (barsIn parse response) =
      (bars, none) ↔ _ := untilError_ofExcept
  have hthrown : (untilError (fun b => ofExcept (readBar lib symbol b)) (barsIn parse response)).2 =
      some .thrown ↔ _ := untilError_snd (barsIn parse response) BarFault.thrown
  simp only [ofExcept_snd_eq_none, ofExcept_snd_eq_some] at hthrown
  rw [← hall, ← hthrown, getBars]
  rcases untilError (fun b => ofExcept (readBar lib symbol b)) (barsIn parse response)
    with ⟨read, _ | _ | _⟩
  · simp
  · simp [eq_comm]
  · simp

/-! ## Instants that are texts -/

/-- The instant of a bar is a text with the year in front. -/
def Dated (year : UInt64) (b : Json) : Prop :=
  ∃ fields rest, b = .object fields ∧
    fields.lookup "t" = some (.string (String.ofList (ofNat year.toNat ++ '-' :: rest)))

/-- The instant of a message is a number. -/
def NumberTimed (msg : Json) : Prop :=
  ∃ fields q, msg = .object fields ∧ fields.lookup "t" = some (.number q)

theorem timestamp_of_dated {b : Json} {bar : Bar} {year : UInt64} (hdated : Dated year b)
    (h : readBar lib symbol b = .ok bar) : bar.timestamp = year := by
  obtain ⟨fields, rest, rfl, htime⟩ := hdated
  have hread : stoull (ofNat year.toNat ++ '-' :: rest) = some year :=
    stoull_ofNat_append year (by simpa using (by decide : ¬ IsDigit '-'))
  have htext : lib.value (.object fields) "t" "0" =
      .ok (String.ofList (ofNat year.toNat ++ '-' :: rest)) := by
    rw [lib.value_object, htime]
    exact lib.getString_string _
  rw [readBar, htext] at h
  dsimp only at h
  rw [String.toList_ofList, hread] at h
  dsimp only at h
  cases hfields : barFields lib symbol (.object fields) with
  | error e =>
    rw [hfields] at h
    cases h
  | ok rest =>
    rw [hfields] at h
    obtain rfl := Except.ok.inj h
    rfl

theorem numberTimed_of_returns {msg v : Json} (hfield : field msg "t" = .ok v)
    (h : Returns (toUInt64 lib v)) : NumberTimed msg := by
  have hnumber : ∃ q, v = .number q := by
    by_contra hother
    rw [toUInt64, lib.getUInt64_other v (not_exists.1 hother)] at h
    exact not_returns_error _ h
  obtain ⟨q, rfl⟩ := hnumber
  unfold field at hfield
  split at hfield
  · next time hfind =>
    obtain rfl := Except.ok.inj hfield
    cases msg with
    | object fields => exact ⟨fields, q, rfl, hfind⟩
    | _ => cases hfind
  · cases hfield

theorem numberTimed_of_tradeTick {msg : Json} (h : Returns (tradeTick lib msg)) : NumberTimed msg := by
  simp only [tradeTick, returns_bind] at h
  obtain ⟨-, -, -, -, -, -, -, -, -, -, -, -, v, hv, timestamp, htime, -⟩ := h
  exact numberTimed_of_returns hv ⟨timestamp, htime⟩

theorem numberTimed_of_quoteTick {msg : Json} (h : Returns (quoteTick lib msg)) : NumberTimed msg := by
  simp only [quoteTick, returns_bind] at h
  obtain ⟨-, -, -, -, -, -, -, -, -, -, -, -, -, -, -, -, -, -, -, -, v, hv, timestamp, htime, -⟩ :=
    h
  exact numberTimed_of_returns hv ⟨timestamp, htime⟩

/-- Only a message whose instant is a number goes to a callback. -/
theorem handed_of_not_numberTimed (callbacks : Callbacks) {msg : Json} (h : ¬ NumberTimed msg) :
    handed lib callbacks msg = none := by
  have herror : ∀ {x : Except MessageFault Tick}, ¬ Returns x → ∃ e, x = .error e := by
    intro x hx
    cases x with
    | error e => exact ⟨e, rfl⟩
    | ok tick => exact absurd (returns_ok tick) hx
  have hnotrade : ¬ Returns (tradeTick lib msg) := mt numberTimed_of_tradeTick h
  have hnoquote : ¬ Returns (quoteTick lib msg) := mt numberTimed_of_quoteTick h
  obtain ⟨e, htrade⟩ := herror hnotrade
  obtain ⟨e', hquote⟩ := herror hnoquote
  unfold handed delivery
  rw [htrade, hquote]
  cases (lib.value msg "T" "").mapError MessageFault.json with
  | error e => rfl
  | ok T =>
    simp only [bind, Except.bind]
    split_ifs <;> rfl

theorem timestamps_of_dated {entries : List Json} {year : UInt64}
    (hentries : ∀ b ∈ entries, Dated year b)
    (hread : List.Forall₂ (fun b bar => readBar lib symbol b = .ok bar) entries bars) :
    ∀ bar ∈ bars, bar.timestamp = year := by
  induction hread with
  | nil => simp
  | cons hbar hrest ih =>
    obtain ⟨hdated, hentries⟩ := List.forall_mem_cons.1 hentries
    exact List.forall_mem_cons.2 ⟨timestamp_of_dated hdated hbar, ih hentries⟩

/-- A trade, with its instant as a text. -/
def tradeText : String :=
  "[\x7b\"T\":\"t\",\"S\":\"AAPL\",\"p\":150,\"s\":1,\"t\":\"2024-01-02T15:04:05Z\"\x7d]"

def tradeFrame : ServerFrame := ⟨ascii tradeText, .short, show _ ≤ 125 by decide +kernel⟩

def barText (day : String) : String :=
  "\x7b\"t\":\"" ++ day ++
    "T05:00:00Z\",\"o\":1,\"h\":2,\"l\":1,\"c\":2,\"v\":9,\"vw\":1,\"n\":3\x7d"

/-- The bars of two days. -/
def barsText : String :=
  "\x7b\"bars\":[" ++ barText "2024-01-02" ++ "," ++ barText "2024-05-06" ++ "]\x7d"

/-- The parser on the two texts. -/
def parseTradeText (payload : List UInt8) : Option Json :=
  if payload = ascii tradeText then
    some (.array [.object [("T", .string "t"), ("S", .string "AAPL"), ("p", .number 150),
      ("s", .number 1), ("t", .string "2024-01-02T15:04:05Z")]])
  else none

def barObject (time : String) : Json :=
  .object [("t", .string time), ("o", .number 1), ("h", .number 2), ("l", .number 1),
    ("c", .number 2), ("v", .number 9), ("vw", .number 1), ("n", .number 3)]

def parseBarsText (text : String) : Option Json :=
  if text = barsText then
    some (.object [("bars",
      .array [barObject "2024-01-02T05:00:00Z", barObject "2024-05-06T05:00:00Z"])])
  else none

end TradingTerminal.WebSocket
