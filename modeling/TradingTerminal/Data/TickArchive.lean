import TradingTerminal.Data.AvailableSymbols
import TradingTerminal.Data.HistoricalData
import TradingTerminal.Lib.Run
import TradingTerminal.Lib.UMap

/-!
# Several files, ticks and trades

`data/historical.hpp` over its whole life: the directory is set and set again, ticks and trades are
appended to files under any names, and two names may be those of one file. Whatever was done before,
`load_ticks` finds in a file the ticks of the symbol that were saved to it, in order, and no trade
(`loadTicks_saved`). `get_available_symbols` lists the symbols of the trades as well, so that there
need not be a tick of each (`availableSymbols_saved`).
-/

namespace TradingTerminal

open Lib

namespace HistoricalData

/-- `save_trade`; the time comes from the clock. -/
def tradeLine (order : Order) (fillPrice : ℚ) (timestamp : Int) : List Char :=
  ofInt timestamp ++ ',' ::
    (order.symbol.toList ++ ',' ::
      ((if order.isBuy then "BUY" else "SELL").toList ++ ',' ::
        (doubleText order.quantity ++ ',' ::
          (doubleText fillPrice ++ ',' :: doubleText order.price))))

/-- What is saved. -/
inductive Record where
  | tick (tick : Tick)
  | trade (order : Order) (fillPrice : ℚ) (timestamp : Int)

def Record.symbol : Record → String
  | .tick t => t.symbol
  | .trade order .. => order.symbol

def Record.line : Record → List Char
  | .tick t => tickLine t
  | .trade order fillPrice timestamp => tradeLine order fillPrice timestamp

def Record.tick? : Record → Option Tick
  | .tick t => some t
  | .trade .. => none

/-! ## Lines -/

theorem ofInt_notMem (n : Int) : ',' ∉ ofInt n ∧ '\n' ∉ ofInt n := by
  apply notMem_of_numeralChars
  intro c hc
  rcases List.mem_append.1 hc with hc | hc
  · split at hc
    · rw [List.mem_singleton.1 hc]
      decide
    · cases hc
  · exact isNumeralChar_digitChar (decimalDigits_spec n.natAbs).2.1 c hc

theorem sideText_notMem (isBuy : Bool) :
    ',' ∉ (if isBuy then "BUY" else "SELL").toList ∧
      '\n' ∉ (if isBuy then "BUY" else "SELL").toList := by
  cases isBuy <;> decide

theorem newline_notMem_line {record : Record} (h : OneField record.symbol) :
    '\n' ∉ record.line := by
  cases record with
  | tick tick => exact newline_notMem_tickLine h
  | trade order fillPrice timestamp =>
    have hsymbol : '\n' ∉ order.symbol.toList := h.newline
    have hside := (sideText_notMem order.isBuy).2
    simp only [Record.line, tradeLine, List.mem_append, List.mem_cons]
    simp [(ofInt_notMem timestamp).2, hsymbol, hside, (doubleText_notMem _).2]

/-- The side of a trade is no price. -/
theorem stod_sideText (isBuy : Bool) :
    stod (if isBuy then "BUY" else "SELL").toList = none := by
  cases isBuy <;> decide +kernel

/-- No trade loads as a tick. -/
theorem loadLine_tradeLine {order : Order} (h : OneField order.symbol) (fillPrice : ℚ)
    (timestamp : Int) (symbol : String) :
    loadLine symbol (tradeLine order fillPrice timestamp) = none := by
  have hfields : getlines ',' (tradeLine order fillPrice timestamp) =
      [ofInt timestamp, order.symbol.toList, (if order.isBuy then "BUY" else "SELL").toList,
        doubleText order.quantity, doubleText fillPrice, doubleText order.price] := by
    unfold tradeLine
    rw [getlines_append_delim (ofInt_notMem _).1, getlines_append_delim h.comma,
      getlines_append_delim (sideText_notMem _).1, getlines_append_delim (doubleText_notMem _).1,
      getlines_append_delim (doubleText_notMem _).1,
      getlines_of_notMem (doubleText_notMem _).1 (doubleText_ne_nil _)]
  unfold loadLine
  rw [hfields]
  simp only [stod_sideText]
  split
  · cases stoull (ofInt timestamp) <;> rfl
  · rfl

/-- What the line of a record loads as, for a symbol. -/
theorem loadLine_line {record : Record} (h : OneField record.symbol) (symbol : String) :
    loadLine symbol record.line =
      (record.tick?.filter (·.symbol = symbol)).bind reread := by
  cases record with
  | tick tick =>
    rw [Record.line, loadLine_tickLine h, Record.tick?]
    by_cases hsymbol : tick.symbol = symbol <;> simp [Option.filter, hsymbol]
  | trade order fillPrice timestamp => exact loadLine_tradeLine h fillPrice timestamp symbol

/-- The text of records appended one after the other. -/
def textOf (records : List Record) : List Char := records.flatMap fun record => record.line ++ ['\n']

theorem getlines_textOf {records : List Record} (h : ∀ record ∈ records, OneField record.symbol) :
    getlines '\n' (textOf records) = records.map Record.line := by
  induction records with
  | nil => rfl
  | cons record records ih =>
    rw [textOf, List.flatMap_cons, List.append_assoc, List.singleton_append,
      getlines_append_delim (newline_notMem_line (h record List.mem_cons_self)), List.map_cons,
      ← ih fun r hr => h r (List.mem_cons_of_mem _ hr)]
    rfl

/-- The ticks of a symbol among the records. -/
def ticksAmong (records : List Record) (symbol : String) : List Tick :=
  (records.filterMap Record.tick?).filter (·.symbol = symbol)

theorem loadTicks_textOf {records : List Record} (h : ∀ record ∈ records, OneField record.symbol)
    (symbol : String) :
    loadTicks symbol (some (textOf records)) = (ticksAmong records symbol).filterMap reread := by
  unfold loadTicks ticksAmong
  dsimp only
  rw [getlines_textOf h, List.filterMap_map, ← List.filterMap_eq_filter, List.filterMap_filterMap,
    List.filterMap_filterMap]
  apply List.filterMap_congr
  intro record hrecord
  rw [Function.comp_apply, loadLine_line (h record hrecord)]
  cases record.tick? with
  | none => rfl
  | some tick =>
    by_cases hsymbol : tick.symbol = symbol <;> simp [Option.guard, Option.filter, hsymbol]

/-! ## Files under names -/

/-- `operator/` of `std::filesystem::path`. -/
def slash (dir name : List Char) : List Char :=
  if name.head? = some '/' then name
  else if dir = [] ∨ dir.getLast? = some '/' then dir ++ name
  else dir ++ '/' :: name

end HistoricalData

/-- The directory of a `HistoricalData`, and the files there are. -/
structure TickArchive where
  dataDir : List Char := "data/".toList
  files : UMap (List Char) (List Char) := ∅

/-- A call, with what the file system makes of it: whether the file opens for writing. -/
inductive ArchiveCall where
  | setDataDir (dir : List Char)
  | save (record : HistoricalData.Record) (filename : List Char) (opens : Bool)

namespace TickArchive

open HistoricalData

def setDataDir (a : TickArchive) (dir : List Char) : TickArchive :=
  { a with
    dataDir := if dir ≠ [] ∧ dir.getLast? ≠ some '/' then slash dir [] else dir }

/-- `save_tick` and `save_trade` -/
def save (a : TickArchive) (record : Record) (filename : List Char) (opens : Bool) : TickArchive :=
  if !opens then a
  else
    let path := slash a.dataDir filename
    { a with files := a.files.insert path (UMap.getD a.files path [] ++ (record.line ++ ['\n'])) }

def loadTicks (a : TickArchive) (symbol : String) (filename : List Char) : List Tick :=
  HistoricalData.loadTicks symbol (a.files.lookup (slash a.dataDir filename))

def step (a : TickArchive) : ArchiveCall → TickArchive
  | .setDataDir dir => a.setDataDir dir
  | .save record filename opens => a.save record filename opens

/-- A tick is saved as on its own file. -/
theorem save_tick (a : TickArchive) (tick : Tick) (filename : List Char) (opens : Bool) :
    (a.save (.tick tick) filename opens).files.lookup (slash a.dataDir filename) =
      (saveTick opens tick (a.files.lookup (slash a.dataDir filename))).2 := by
  unfold save saveTick
  cases opens with
  | false => rfl
  | true => exact AList.lookup_insert _

/-- The records that calls on an archive save to a file. -/
def savedTo (path : List Char) (a : TickArchive) : List ArchiveCall → List Record
  | [] => []
  | .setDataDir dir :: calls => savedTo path (a.setDataDir dir) calls
  | .save record filename opens :: calls =>
    (if opens ∧ slash a.dataDir filename = path then [record] else []) ++
      savedTo path (a.save record filename opens) calls

theorem lookup_save_here (a : TickArchive) (record : Record) (filename : List Char) :
    (a.save record filename true).files.lookup (slash a.dataDir filename) =
      some (UMap.getD a.files (slash a.dataDir filename) [] ++ (record.line ++ ['\n'])) :=
  AList.lookup_insert _

theorem lookup_save_other {a : TickArchive} {filename path : List Char} {opens : Bool}
    (h : ¬ (opens = true ∧ slash a.dataDir filename = path)) (record : Record) :
    (a.save record filename opens).files.lookup path = a.files.lookup path := by
  unfold save
  cases opens with
  | false => rfl
  | true =>
    have hother : path ≠ slash a.dataDir filename := fun heq => h ⟨rfl, heq.symm⟩
    exact AList.lookup_insert_ne hother

/-- Every call appends to the file it names and to no other. -/
theorem lookup_run (path : List Char) (a : TickArchive) (calls : List ArchiveCall) :
    (run step a calls).files.lookup path =
      if savedTo path a calls = [] then a.files.lookup path
      else some (UMap.getD a.files path [] ++ textOf (savedTo path a calls)) := by
  induction calls generalizing a with
  | nil => rfl
  | cons call calls ih =>
    rw [run_cons, ih]
    cases call with
    | setDataDir dir => rfl
    | save record filename opens =>
      by_cases hhere : opens = true ∧ slash a.dataDir filename = path
      · obtain ⟨rfl, rfl⟩ := hhere
        have hsaved : savedTo (slash a.dataDir filename) a (.save record filename true :: calls) =
            record :: savedTo (slash a.dataDir filename) (a.save record filename true) calls := by
          simp [savedTo]
        have hlookup := a.lookup_save_here record filename
        rw [hsaved, if_neg (List.cons_ne_nil _ _), step, UMap.getD, hlookup]
        split
        · next hnil => simp [textOf, hnil]
        · simp [textOf]
      · have hsaved : savedTo path a (.save record filename opens :: calls) =
            savedTo path (a.save record filename opens) calls := by
          simp [savedTo, hhere]
        rw [hsaved, step, UMap.getD, UMap.getD, lookup_save_other hhere]

/-- A record saved was given to a call. -/
theorem mem_savedTo {path : List Char} {a : TickArchive} {calls : List ArchiveCall}
    {record : Record} (h : record ∈ savedTo path a calls) :
    ∃ filename opens, .save record filename opens ∈ calls := by
  induction calls generalizing a with
  | nil => cases h
  | cons call calls ih =>
    cases call with
    | setDataDir dir =>
      obtain ⟨filename, opens, hmem⟩ := ih h
      exact ⟨filename, opens, List.mem_cons_of_mem _ hmem⟩
    | save saved filename opens =>
      rcases List.mem_append.1 h with hhere | hlater
      · split at hhere
        · rw [List.mem_singleton.1 hhere]
          exact ⟨filename, opens, List.mem_cons_self⟩
        · cases hhere
      · obtain ⟨filename, opens, hmem⟩ := ih hlater
        exact ⟨filename, opens, List.mem_cons_of_mem _ hmem⟩

section Calls

variable {calls : List ArchiveCall}

theorem oneField_savedTo
    (h : ∀ record filename opens, .save record filename opens ∈ calls → OneField record.symbol)
    (path : List Char) : ∀ record ∈ savedTo path {} calls, OneField record.symbol := by
  intro record hrecord
  obtain ⟨filename, opens, hmem⟩ := mem_savedTo hrecord
  exact h record filename opens hmem

theorem loadTicks_run
    (h : ∀ record filename opens, .save record filename opens ∈ calls → OneField record.symbol)
    (symbol : String) (filename : List Char) :
    (run step {} calls).loadTicks symbol filename =
      (ticksAmong (savedTo (slash (run step {} calls).dataDir filename) {} calls) symbol).filterMap
        reread := by
  rw [loadTicks, lookup_run]
  split
  · next hnil =>
    rw [hnil]
    rfl
  · exact loadTicks_textOf (oneField_savedTo h _) symbol

end Calls

/-- **What was saved is found.** After any calls on a new archive, all of them with symbols that are
one field, `load_ticks` gives what the lines of the symbol's ticks read back as, of the ticks saved
to the file of this name, in the order saved; these are the ticks themselves exactly if all of their
values are kept in the text. Trades in the same file, and whatever went to other files or could not
be opened, make no difference. -/
theorem loadTicks_saved (calls : List ArchiveCall)
    (h : ∀ record filename opens, .save record filename opens ∈ calls → OneField record.symbol)
    (symbol : String) (filename : List Char) :
    let a := run step {} calls
    let ticks := ticksAmong (savedTo (slash a.dataDir filename) {} calls) symbol
    a.loadTicks symbol filename = ticks.filterMap reread ∧
      (a.loadTicks symbol filename = ticks ↔ ∀ tick ∈ ticks, KeptInLine tick) := by
  intro a ticks
  have hload : a.loadTicks symbol filename = ticks.filterMap reread :=
    loadTicks_run h symbol filename
  refine ⟨hload, ?_⟩
  have hkept : ticks.filterMap reread = ticks.map id ↔ ∀ tick ∈ ticks, reread tick = some tick :=
    List.filterMap_eq_map_iff_forall_eq_some
  rw [List.map_id] at hkept
  rw [hload, hkept]
  refine forall₂_congr fun tick htick => reread_eq_some_iff ?_
  obtain ⟨hmem, -⟩ := List.mem_filter.1 htick
  obtain ⟨record, hrecord, htick⟩ := List.mem_filterMap.1 hmem
  cases record with
  | tick t =>
    cases htick
    exact oneField_savedTo h _ _ hrecord
  | trade order fillPrice timestamp => cases htick

def savedTick : Tick :=
  { timestamp := 1700000000000000000, symbol := "AAPL", price := 150.25, volume := 10,
    bid := 150.24, ask := 150.26 }

/-- A tick and a trade in one file, under two spellings of its directory. -/
def sharedFile : List ArchiveCall :=
  [.setDataDir "d".toList, .save (.tick savedTick) "t.csv".toList true,
    .save (.tick savedTick) "u.csv".toList false, .setDataDir "d/".toList,
    .save (.trade { symbol := "AAPL", quantity := 10 } 150.25 1700000001) "t.csv".toList true]

theorem sharedFile_loaded :
    (run step {} sharedFile).loadTicks "AAPL" "t.csv".toList = [savedTick] := by
  have hfields : ∀ record filename opens, .save record filename opens ∈ sharedFile →
      OneField record.symbol := by
    intro record filename opens hmem
    have hsymbol : record.symbol = "AAPL" := by
      simp only [sharedFile, List.mem_cons, ArchiveCall.save.injEq, reduceCtorEq, false_or,
        List.not_mem_nil, or_false] at hmem
      rcases hmem with ⟨rfl, -⟩ | ⟨rfl, -⟩ | ⟨rfl, -⟩ <;> rfl
    rw [hsymbol]
    decide
  have hticks : ticksAmong (savedTo (slash (run step {} sharedFile).dataDir "t.csv".toList) {}
      sharedFile) "AAPL" = [savedTick] := by
    decide +kernel
  have hload := (loadTicks_saved sharedFile hfields "AAPL" "t.csv".toList).2
  rw [hticks] at hload
  refine hload.2 fun tick htick => ?_
  have hvalues : KeptInText savedTick.price ∧ KeptInText savedTick.volume ∧
      KeptInText savedTick.bid ∧ KeptInText savedTick.ask := by decide +kernel
  rw [List.mem_singleton.1 htick]
  exact ⟨hvalues.1, hvalues.2.1, hvalues.2.2.1, hvalues.2.2.2⟩

/-! ## The listed symbols -/

theorem symbolToken_line {record : Record} (h : OneField record.symbol) :
    String.ofList (symbolToken record.line) = record.symbol := by
  cases record with
  | tick tick =>
    have hsymbol : ',' ∉ tick.symbol.toList := h.comma
    have htimestamp := notMem_of_numeralChars (isNumeralChar_ofNat tick.timestamp.toNat)
    rw [Record.line, tickLine, symbolToken_append htimestamp.1, getline_append_delim hsymbol]
    exact String.ofList_toList
  | trade order fillPrice timestamp =>
    have hsymbol : ',' ∉ order.symbol.toList := h.comma
    rw [Record.line, tradeLine, symbolToken_append (ofInt_notMem _).1, getline_append_delim hsymbol]
    exact String.ofList_toList

theorem tokens_textOf {records : List Record} (h : ∀ record ∈ records, OneField record.symbol) :
    tokens (some (textOf records)) = records.map Record.symbol := by
  rw [tokens, fileLines, getlines_textOf h, List.map_map]
  exact List.map_congr_left fun record hrecord => symbolToken_line (h record hrecord)

/-- `get_available_symbols` -/
def availableSymbols (a : TickArchive) (filename : List Char) : List String :=
  getAvailableSymbols (a.files.lookup (slash a.dataDir filename))

/-- **What is listed.** After any such calls `get_available_symbols` lists the symbols of all records
saved to the file, ticks and trades, each once and where it was saved first. Each of them has a tick
to load if and only if each symbol that was saved has a tick that its line reads back as. -/
theorem availableSymbols_saved (calls : List ArchiveCall)
    (h : ∀ record filename opens, .save record filename opens ∈ calls → OneField record.symbol)
    (filename : List Char) :
    let a := run step {} calls
    let records := savedTo (slash a.dataDir filename) {} calls
    a.availableSymbols filename = firstSeen (· ≠ "") (records.map Record.symbol) ∧
      ((∀ symbol ∈ a.availableSymbols filename, a.loadTicks symbol filename ≠ []) ↔
        ∀ record ∈ records, record.symbol ≠ "" →
          ∃ tick ∈ ticksAmong records record.symbol, (reread tick).isSome = true) := by
  intro a records
  have hlisted : a.availableSymbols filename =
      firstSeen (· ≠ "") (records.map Record.symbol) := by
    rw [availableSymbols, getAvailableSymbols_eq, lookup_run]
    split
    · next hnil =>
      change _ = firstSeen _ (List.map _ (savedTo _ _ _))
      rw [hnil]
      rfl
    · exact congrArg _ (tokens_textOf (oneField_savedTo h _))
  refine ⟨hlisted, ?_⟩
  have hloads : ∀ symbol, a.loadTicks symbol filename ≠ [] ↔
      ∃ tick ∈ ticksAmong records symbol, (reread tick).isSome = true := by
    intro symbol
    rw [loadTicks_run h, Ne, List.filterMap_eq_nil_iff]
    push Not
    simp only [Option.ne_none_iff_isSome]
    rfl
  rw [hlisted]
  simp only [hloads, mem_firstSeen, List.mem_map, decide_eq_true_eq]
  constructor
  · exact fun hall record hrecord hne => hall record.symbol ⟨⟨record, hrecord, rfl⟩, hne⟩
  · rintro hall symbol ⟨⟨record, hrecord, rfl⟩, hne⟩
    exact hall record hrecord hne

def msftTrade : Record := .trade { symbol := "MSFT", quantity := 5 } 370.5 1700000001

/-- A tick of one symbol and a trade of another. -/
def tradedOnly : List ArchiveCall :=
  [.save (.tick savedTick) "t.csv".toList true, .save msftTrade "t.csv".toList true]

theorem tradedOnly_listed :
    let a := run step {} tradedOnly
    a.availableSymbols "t.csv".toList = ["AAPL", "MSFT"] ∧
      ¬ ∀ symbol ∈ a.availableSymbols "t.csv".toList, a.loadTicks symbol "t.csv".toList ≠ [] := by
  intro a
  have hfields : ∀ record filename opens, .save record filename opens ∈ tradedOnly →
      OneField record.symbol := by
    intro record filename opens hmem
    simp only [tradedOnly, List.mem_cons, ArchiveCall.save.injEq, List.not_mem_nil, or_false] at hmem
    rcases hmem with ⟨rfl, -⟩ | ⟨rfl, -⟩ <;> decide
  have hrecords : savedTo (slash a.dataDir "t.csv".toList) {} tradedOnly =
      [.tick savedTick, msftTrade] := rfl
  have hnone : ticksAmong [.tick savedTick, msftTrade] "MSFT" = [] := by decide +kernel
  obtain ⟨hlisted, hloads⟩ := availableSymbols_saved tradedOnly hfields "t.csv".toList
  rw [hrecords] at hlisted hloads
  refine ⟨hlisted.trans (by decide +kernel), fun hall => ?_⟩
  obtain ⟨tick, htick, -⟩ := hloads.1 hall msftTrade (by simp) (by decide)
  change tick ∈ ticksAmong _ "MSFT" at htick
  rw [hnone] at htick
  cases htick

end TickArchive

end TradingTerminal
