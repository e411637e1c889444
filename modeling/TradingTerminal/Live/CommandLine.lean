import TradingTerminal.Exchange.AlpacaRequests
import TradingTerminal.Exchange.MockExchange
import TradingTerminal.Live.ConfiguredStrategies
import TradingTerminal.Live.OpeningWait

/-!
# From the command line to the account

`main` goes through its arguments twice, for `--config` and `--help` before the configuration is
loaded and for `--mode` and `--exchange` after it, and hands the two settings to
`ExchangeFactory::create`. The two loops do not skip each other's values. As long as no value is the
name of an option, they read what the arguments say, and the requests that the client makes to a
relative endpoint then go to the account of that mode, from a session of the market on
(`connecting_account`).
-/

namespace TradingTerminal

open Lib

/-- What stands outside the program: the files that can be opened, and two environment variables. -/
structure Environment where
  files : Text → Option Text
  apiKey : Option String
  secretKey : Option String

/-- An adapter that is not connected yet. -/
inductive Exchange (curl : CurlEasy) where
  | alpaca (client : AlpacaClient curl)
  | mock (exchange : MockExchange)

/-- `ExchangeFactory::create` -/
def ExchangeFactory.create (curl : CurlEasy) (env : Environment) (exchange mode : Text) :
    Option (Exchange curl) :=
  let paper := mode ≠ "live".toList
  if exchange = "alpaca".toList then
    match env.apiKey, env.secretKey with
    | some apiKey, some secretKey => some (.alpaca (.new curl apiKey secretKey paper))
    | _, _ => none
  else if exchange = "mock".toList then some (.mock {})
  else none

/-! ## The adapter -/

namespace AlpacaClient

variable {curl : CurlEasy}

theorem sends_prepared (c : AlpacaClient curl) (h : curl.Handle) (call : ApiCall) :
    (curl.sends (c.prepared h call)).url = c.urlOf call.endpoint ∧
      (curl.sends (c.prepared h call)).headers =
        ["APCA-API-KEY-ID: " ++ c.apiKey, "APCA-API-SECRET-KEY: " ++ c.secretKey,
          "Content-Type: application/json"] := by
  unfold prepared callOptions methodOptions
  rw [curl.sends_eq, curl.options_setopts]
  split_ifs <;> exact ⟨rfl, rfl⟩

/-- All the requests of a client, whatever the transfers end with. -/
theorem wireLog_sends (c : AlpacaClient curl) {h : curl.Handle} (hc : c.handle = some h)
    (calls : List (ApiCall × Transfer)) :
    (c.wireLog calls).map (fun sent => (sent.url, sent.headers)) =
      calls.map fun x => (c.urlOf x.1.endpoint, ["APCA-API-KEY-ID: " ++ c.apiKey,
        "APCA-API-SECRET-KEY: " ++ c.secretKey, "Content-Type: application/json"]) := by
  induction calls generalizing c h with
  | nil => rfl
  | cons x calls ih =>
    obtain ⟨call, transfer⟩ := x
    obtain ⟨hurl, hheaders⟩ := c.sends_prepared h call
    rw [wireLog_cons c h call transfer calls hc, List.map_cons, List.map_cons, hurl, hheaders,
      ih _ rfl]
    rfl

end AlpacaClient

/-- Only the two exchanges give an adapter. -/
theorem ExchangeFactory.create_eq_some {curl : CurlEasy} {env : Environment} {name mode : Text}
    {exchange : Exchange curl} (h : create curl env name mode = some exchange) :
    name = "mock".toList ∧ exchange = .mock {} ∨
      name = "alpaca".toList ∧ ∃ apiKey secretKey, env.apiKey = some apiKey ∧
        env.secretKey = some secretKey ∧
        exchange = .alpaca (.new curl apiKey secretKey (mode ≠ "live".toList)) := by
  unfold create at h
  dsimp only at h
  split_ifs at h with halpaca hmock
  · refine .inr ⟨halpaca, ?_⟩
    split at h
    · next apiKey secretKey hkey hsecret =>
      exact ⟨apiKey, secretKey, hkey, hsecret, (Option.some.inj h).symm⟩
    · cases h
  · exact .inl ⟨hmock, (Option.some.inj h).symm⟩

namespace CommandLine

/-- The loop before the configuration is loaded; with `--help` the usage is printed, and `main`
returns. -/
def readConfigFile (configFile : Text) : List Text → Option Text
  | [] => some configFile
  | [arg] => if arg = "--help".toList then none else some configFile
  | arg :: value :: args =>
    if arg = "--config".toList then readConfigFile value args
    else if arg = "--help".toList then none
    else readConfigFile configFile (value :: args)

/-- The loop after it, from the mode and the exchange of the configuration. -/
def readMode (mode exchange : Text) : List Text → Text × Text
  | arg :: value :: args =>
    if arg = "--mode".toList then readMode value exchange args
    else if arg = "--exchange".toList then readMode mode value args
    else readMode mode exchange (value :: args)
  | _ => (mode, exchange)

/-- What `main` has come to before it connects. -/
inductive Progress (curl : CurlEasy) where
  | usage
  | waiting
  | returned
  | failed
  | connecting (since : Int) (config : Config) (exchange : Exchange curl)

/-- The part of `main` from the wait for the opening to `connect`. Without an adapter it throws. -/
def openExchange (curl : CurlEasy) (env : Environment) (config : Config) (mode exchange : Text)
    (offset now : Int) (polls : List MarketHours.Poll) : Progress curl :=
  match MarketHours.opening (String.ofList exchange) offset now polls with
  | .waiting => .waiting
  | .returned => .returned
  | .trading since =>
    match ExchangeFactory.create curl env exchange mode with
    | none => .failed
    | some adapter => .connecting since config adapter

/-- `main` up to `connect`. -/
def progress (curl : CurlEasy) (env : Environment) (args : List Text) (offset now : Int)
    (polls : List MarketHours.Poll) : Progress curl :=
  match readConfigFile "config.yaml".toList args with
  | none => .usage
  | some configFile =>
    let config := (Config.loadFromFile {} (env.files configFile)).2
    let (mode, exchange) := readMode (config.get "trading.mode".toList "paper".toList)
      (config.get "trading.exchange".toList "alpaca".toList) args
    openExchange curl env config mode exchange offset now polls

/-! ## What the arguments say -/

/-- An option with its value, or a word that is none of the options. -/
inductive Argument where
  | config (file : Text)
  | mode (value : Text)
  | exchange (value : Text)
  | other (word : Text)
  deriving DecidableEq

namespace Argument

def words : Argument → List Text
  | .config file => ["--config".toList, file]
  | .mode value => ["--mode".toList, value]
  | .exchange value => ["--exchange".toList, value]
  | .other word => [word]

def file? : Argument → Option Text
  | .config file => some file
  | _ => none

def mode? : Argument → Option Text
  | .mode value => some value
  | _ => none

def exchange? : Argument → Option Text
  | .exchange value => some value
  | _ => none

end Argument

/-- A word that the first loop passes over, and one that the second does. -/
def FirstSkips (word : Text) : Prop := word ≠ "--config".toList ∧ word ≠ "--help".toList

def SecondSkips (word : Text) : Prop := word ≠ "--mode".toList ∧ word ≠ "--exchange".toList

instance (word : Text) : Decidable (FirstSkips word) := inferInstanceAs (Decidable (_ ∧ _))

instance (word : Text) : Decidable (SecondSkips word) := inferInstanceAs (Decidable (_ ∧ _))

/-- The value of an option is not the name of an option of the other loop, and another word is no
option's name: an option without its value, at the end of the line, is not meant here. -/
def Argument.Plain : Argument → Prop
  | .config file => SecondSkips file
  | .mode value => FirstSkips value
  | .exchange value => FirstSkips value
  | .other word => FirstSkips word ∧ SecondSkips word

open Argument

/-- The file named last. -/
def fileOf (args : List Argument) : Text := (args.filterMap file?).getLastD "config.yaml".toList

/-- The mode named last, or else that of the document. -/
def modeOf (args : List Argument) (leaves : List (Text × Leaf)) : Text :=
  (args.filterMap mode?).getLastD
    ((Document.valueAt "trading.mode".toList leaves).getD "paper".toList)

def exchangeOf (args : List Argument) (leaves : List (Text × Leaf)) : Text :=
  (args.filterMap exchange?).getLastD
    ((Document.valueAt "trading.exchange".toList leaves).getD "alpaca".toList)

/-- The leaves of the document that a file is a text of. A file that cannot be opened says
nothing. -/
def DocumentIn (leaves : List (Text × Leaf)) : Option Text → Prop
  | none => leaves = []
  | some text => ∃ (doc : Document) (indent : Nat), doc.WellFormed ∧
      ((doc.leaves []).map Prod.fst).Nodup ∧ Renders indent doc (getlines '\n' text) ∧
      leaves = doc.leaves []

/-! ## The two loops -/

theorem readConfigFile_skip {word : Text} (h : FirstSkips word) (file : Text) (args : List Text) :
    readConfigFile file (word :: args) = readConfigFile file args := by
  cases args with
  | nil => exact if_neg h.2
  | cons value args => rw [readConfigFile, if_neg h.1, if_neg h.2]

theorem readMode_skip {word : Text} (h : SecondSkips word) (mode exchange : Text)
    (args : List Text) : readMode mode exchange (word :: args) = readMode mode exchange args := by
  cases args with
  | nil => rfl
  | cons value args => rw [readMode, if_neg h.1, if_neg h.2]

section Words

variable {args : List Argument}

theorem readConfigFile_words (h : ∀ a ∈ args, a.Plain) (file : Text) :
    readConfigFile file (args.flatMap words) = some ((args.filterMap file?).getLastD file) := by
  induction args generalizing file with
  | nil => rfl
  | cons a args ih =>
    obtain ⟨ha, hargs⟩ := List.forall_mem_cons.1 h
    rw [List.flatMap_cons, List.filterMap_cons]
    have hname : FirstSkips "--mode".toList ∧ FirstSkips "--exchange".toList := by decide
    cases a with
    | config value =>
      refine (if_pos rfl).trans ((ih hargs value).trans ?_)
      simp only [file?, List.getLastD_cons]
    | mode value =>
      exact (readConfigFile_skip hname.1 ..).trans ((readConfigFile_skip ha ..).trans (ih hargs file))
    | exchange value =>
      exact (readConfigFile_skip hname.2 ..).trans ((readConfigFile_skip ha ..).trans (ih hargs file))
    | other word => exact (readConfigFile_skip ha.1 ..).trans (ih hargs file)

theorem readMode_words (h : ∀ a ∈ args, a.Plain) (mode exchange : Text) :
    readMode mode exchange (args.flatMap words) =
      ((args.filterMap mode?).getLastD mode, (args.filterMap exchange?).getLastD exchange) := by
  induction args generalizing mode exchange with
  | nil => rfl
  | cons a args ih =>
    obtain ⟨ha, hargs⟩ := List.forall_mem_cons.1 h
    rw [List.flatMap_cons, List.filterMap_cons, List.filterMap_cons]
    have hname : SecondSkips "--config".toList := by decide
    have hother : "--exchange".toList ≠ "--mode".toList := by decide
    cases a with
    | config value =>
      exact (readMode_skip hname ..).trans ((readMode_skip ha ..).trans (ih hargs mode exchange))
    | mode value =>
      refine (if_pos rfl).trans ((ih hargs value exchange).trans ?_)
      simp only [mode?, exchange?, List.getLastD_cons]
    | exchange value =>
      refine (if_neg hother).trans ((if_pos rfl).trans ((ih hargs mode value).trans ?_))
      simp only [mode?, exchange?, List.getLastD_cons]
    | other word => exact (readMode_skip ha.2 ..).trans (ih hargs mode exchange)

end Words

/-! ## What is connected to -/

theorem loaded_of_documentIn {leaves : List (Text × Leaf)} {file : Option Text}
    (h : DocumentIn leaves file) :
    (leaves.map Prod.fst).Nodup ∧ Document.Loaded leaves (Config.loadFromFile {} file).2 := by
  cases file with
  | none =>
    obtain rfl : leaves = [] := h
    have hdefaults : (Config.loadFromFile {} none).2 = Config.applyDefaults {} := rfl
    rw [hdefaults]
    exact ⟨List.nodup_nil, Config.loaded_of_holds Config.Holds.empty⟩
  | some text =>
    obtain ⟨doc, indent, hwf, distinct, hrenders, rfl⟩ := h
    exact ⟨distinct, loaded_of_renders hwf distinct hrenders⟩

/-- The account of a mode. -/
def hostOf (mode : Text) : String :=
  if mode = "live".toList then "https://api.alpaca.markets" else "https://paper-api.alpaca.markets"

theorem progress_words (curl : CurlEasy) (env : Environment) {args : List Argument}
    (hplain : ∀ a ∈ args, a.Plain) {leaves : List (Text × Leaf)}
    (hdocument : DocumentIn leaves (env.files (fileOf args))) (offset now : Int)
    (polls : List MarketHours.Poll) :
    progress curl env (args.flatMap words) offset now polls =
      openExchange curl env (Config.loadFromFile {} (env.files (fileOf args))).2
        (modeOf args leaves) (exchangeOf args leaves) offset now polls := by
  obtain ⟨distinct, hloaded⟩ := loaded_of_documentIn hdocument
  have hmode := hloaded.get distinct
    (by decide : ("trading.mode".toList, "paper".toList) ∈ Config.defaultSettings) "paper".toList
  have hexchange := hloaded.get distinct
    (by decide : ("trading.exchange".toList, "alpaca".toList) ∈ Config.defaultSettings)
    "alpaca".toList
  unfold progress modeOf exchangeOf
  rw [readConfigFile_words hplain, ← hmode, ← hexchange]
  dsimp only
  rw [readMode_words hplain]
  rfl

/-- What is connected to was given by the factory, in a session: the one exchange that does not wait
for the market is not known there. -/
theorem openExchange_connecting {curl : CurlEasy} {env : Environment} {config c : Config}
    {mode name : Text} {offset now : Int} {polls : List MarketHours.Poll} {since : Int}
    {exchange : Exchange curl}
    (h : openExchange curl env config mode name offset now polls =
      .connecting since c exchange) :
    MarketHours.InSession offset since ∧ config = c ∧
      ExchangeFactory.create curl env name mode = some exchange := by
  unfold openExchange at h
  cases hopening : MarketHours.opening (String.ofList name) offset now polls with
  | waiting => simp [hopening] at h
  | returned => simp [hopening] at h
  | trading start =>
    rw [hopening] at h
    dsimp only at h
    cases hcreate : ExchangeFactory.create curl env name mode with
    | none => simp [hcreate] at h
    | some adapter =>
      rw [hcreate] at h
      obtain ⟨rfl, rfl, rfl⟩ := Progress.connecting.inj h
      refine ⟨?_, rfl, rfl⟩
      have hname : String.ofList name ≠ "binance" := by
        rcases ExchangeFactory.create_eq_some hcreate with ⟨rfl, -⟩ | ⟨rfl, -⟩ <;> decide
      exact MarketHours.inSession_of_opening hname hopening

/-- **From the command line to the account.** With options that have a value, which is not the name
of an option of the other loop, with words that are no option's name, and a file that is a text of a
document: what `main` connects to, it connects to in a session of the market. It is the exchange named
last, or else that of the document. The requests of an Alpaca client then all carry the keys of the
environment. To a relative endpoint they go to the account of the mode named last, or else of the
document's; an `https://` endpoint, as those of the market data, is asked as it is given. -/
theorem connecting_account (curl : CurlEasy) (env : Environment) (args : List Argument)
    (hplain : ∀ a ∈ args, a.Plain) (leaves : List (Text × Leaf))
    (hdocument : DocumentIn leaves (env.files (fileOf args))) (offset now : Int)
    (polls : List MarketHours.Poll) (since : Int) (c : Config) (exchange : Exchange curl)
    (h : progress curl env (args.flatMap words) offset now polls = .connecting since c exchange) :
    MarketHours.InSession offset since ∧ Document.Loaded leaves c ∧
      (exchangeOf args leaves = "mock".toList ∧ exchange = .mock {} ∨
        exchangeOf args leaves = "alpaca".toList ∧ ∃ apiKey secretKey client,
          env.apiKey = some apiKey ∧ env.secretKey = some secretKey ∧ exchange = .alpaca client ∧
          ∀ calls : List (ApiCall × Transfer),
            (client.wireLog calls).map (fun sent => (sent.url, sent.headers)) =
              calls.map fun x =>
                (if x.1.endpoint.startsWith "https://" then x.1.endpoint
                  else hostOf (modeOf args leaves) ++ x.1.endpoint,
                  ["APCA-API-KEY-ID: " ++ apiKey, "APCA-API-SECRET-KEY: " ++ secretKey,
                    "Content-Type: application/json"])) := by
  rw [progress_words curl env hplain hdocument] at h
  obtain ⟨hsession, rfl, hcreate⟩ := openExchange_connecting h
  refine ⟨hsession, (loaded_of_documentIn hdocument).2, ?_⟩
  rcases ExchangeFactory.create_eq_some hcreate with
    hmock | ⟨halpaca, key, secret, hkey, hsecret, rfl⟩
  · exact .inl hmock
  · refine .inr ⟨halpaca, key, secret, _, hkey, hsecret, rfl, fun calls => ?_⟩
    rw [AlpacaClient.wireLog_sends _ rfl]
    have hhost : (AlpacaClient.new curl key secret (modeOf args leaves ≠ "live".toList)).baseUrl =
        hostOf (modeOf args leaves) := by
      unfold AlpacaClient.new hostOf
      by_cases hlive : modeOf args leaves = "live".toList <;> simp [hlive]
    unfold AlpacaClient.urlOf
    rw [hhost]
    rfl

/-- Two modes, of which the later one counts, and a word that means nothing. -/
def liveCommand : List Argument :=
  [.mode "paper".toList, .other "-v".toList, .config "live.yaml".toList, .mode "live".toList]

/-- A file that says nothing of the mode or the exchange, and two keys. -/
def tradingDesk : Environment where
  files := fun file => if file = "live.yaml".toList then some twoStrategiesText else none
  apiKey := some "key"
  secretKey := some "secret"

/-- On a Monday at ten. -/
theorem liveCommand_account :
    let client := AlpacaClient.new .optionRecord "key" "secret" false
    progress .optionRecord tradingDesk (liveCommand.flatMap words) (-18000) 1705330800 [] =
        .connecting 1705330800 (Config.loadFromFile {} (some twoStrategiesText)).2
          (.alpaca client) ∧
      MarketHours.InSession (-18000) 1705330800 ∧
      ∀ calls : List (ApiCall × Transfer),
        (∀ x ∈ calls, x.1.endpoint.startsWith "https://" = false) →
        (client.wireLog calls).map HttpRequest.url =
          calls.map fun x => "https://api.alpaca.markets" ++ x.1.endpoint := by
  intro client
  have hdocument :
      DocumentIn (twoStrategiesDocument.leaves []) (tradingDesk.files (fileOf liveCommand)) :=
    ⟨twoStrategiesDocument, 0, by decide, by decide, twoStrategiesText_renders, rfl⟩
  have hplain : ∀ a ∈ liveCommand, a.Plain := by
    simp [liveCommand, Argument.Plain, FirstSkips, SecondSkips]
  have hconnecting : progress .optionRecord tradingDesk (liveCommand.flatMap words) (-18000)
      1705330800 [] = .connecting 1705330800 (Config.loadFromFile {} (some twoStrategiesText)).2
        (.alpaca client) := by
    rw [progress_words _ _ hplain hdocument]
    rfl
  obtain ⟨hsession, -, ⟨-, hmock⟩ | ⟨-, _, _, _, -, -, halpaca, hsent⟩⟩ :=
    connecting_account .optionRecord tradingDesk liveCommand hplain
      (twoStrategiesDocument.leaves []) hdocument (-18000) 1705330800 [] _ _ _ hconnecting
  · cases hmock
  · obtain rfl := Exchange.alpaca.inj halpaca
    refine ⟨hconnecting, hsession, fun calls hcalls => ?_⟩
    have hurls := congrArg (List.map Prod.fst) (hsent calls)
    rw [List.map_map, List.map_map] at hurls
    refine Eq.trans hurls (List.map_congr_left fun x hx => ?_)
    exact if_neg (by rw [hcalls x hx]; exact Bool.false_ne_true)

end CommandLine

end TradingTerminal
