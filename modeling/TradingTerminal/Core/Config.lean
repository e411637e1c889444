import TradingTerminal.Lib.Text
import TradingTerminal.Lib.UMap

/-!
# The configuration file

`core/config.hpp`: the parser of the project's subset of YAML. A `std::string` is a list of
characters. `readLine` is the first phase, from a raw line to its indent and content; `parseLine` is
the second, which keeps the open sections by their indent and the list that item lines belong to, and
looks one line ahead to tell a list from a section.
-/

namespace TradingTerminal

open Lib

abbrev Text := List Char

/-- The characters that `trim` strips. -/
def isSpace (c : Char) : Bool := c = ' ' || c = '\t' || c = '\r' || c = '\n'

structure Config where
  settings : UMap Text Text := ∅
  tradingSymbols : List Text := []
  activeStrategies : List Text := []

namespace Config

/-! ## String helpers -/

/-- The text before the first `#` outside double quotes, if there is one. -/
def beforeComment (inQuote : Bool) : Text → Option Text
  | [] => none
  | c :: s =>
    let inQuote := if c = '"' then !inQuote else inQuote
    if !inQuote && c = '#' then some [] else (beforeComment inQuote s).map (c :: ·)

def stripComment (s : Text) : Text :=
  match beforeComment false s with
  | some t => trim isSpace t
  | none => s

def stripQuotes (s : Text) : Text :=
  if s.length ≥ 2 ∧ s.head? = some '"' ∧ s.getLast? = some '"' then (s.drop 1).take (s.length - 2)
  else s

/-- Leading spaces, a tab counting as two. -/
def indentOf : Text → Nat
  | ' ' :: s => indentOf s + 1
  | '\t' :: s => indentOf s + 2
  | _ => 0

def parseInlineList (s : Text) : List Text :=
  let start := s.idxOf '['
  let stop := s.idxOf ']'
  if start = s.length ∨ stop = s.length ∨ stop ≤ start then []
  else
    ((getlines ',' ((s.drop (start + 1)).take (stop - start - 1))).map fun item =>
      trim isSpace (stripQuotes (trim isSpace item))).filter (· ≠ [])

/-! ## The parser -/

structure RawLine where
  indent : Nat
  content : Text

/-- A line of the file, unless it is blank or only a comment. -/
def readLine (raw : Text) : Option RawLine :=
  let raw := if raw.getLast? = some '\r' then raw.dropLast else raw
  let content := trim isSpace (stripComment raw)
  if content = [] then none else some { indent := indentOf raw, content }

structure ParseState where
  config : Config
  sectionAtIndent : UMap Nat Text := ∅
  pendingListKey : Text := []
  pendingListIndent : Int := -1

/-- A dotted path, built name by name. -/
def joinPath (names : List Text) : Text :=
  names.foldl (fun path name => (if path ≠ [] then path ++ ['.'] else path) ++ name) []

/-- The names of the sections open at less than `indent`, outermost first. Two sections never have
the same level, so the sort needs to look at the level only. -/
def openSections (sections : UMap Nat Text) (indent : Nat) : List Text :=
  ((sections.entries.mergeSort fun a b => a.1 ≤ b.1).filter (·.1 < indent)).map (·.2)

def currentPrefix (sections : UMap Nat Text) (indent : Nat) : Text :=
  joinPath (openSections sections indent)

def symbolsKey : Text := "trading.symbols".toList

def activeKey : Text := "strategies.active".toList

/-- Store an item of the block list at `key`; only two lists are kept. -/
def pushItem (c : Config) (key value : Text) : Config :=
  if key = symbolsKey then { c with tradingSymbols := c.tradingSymbols ++ [value] }
  else if key = activeKey then { c with activeStrategies := c.activeStrategies ++ [value] }
  else c

/-- Store the inline list at `key`. -/
def setItems (c : Config) (key : Text) (items : List Text) : Config :=
  if key = symbolsKey then { c with tradingSymbols := items }
  else if key = activeKey then { c with activeStrategies := items }
  else c

/-- The key and the value of a line `key: value`; the value is empty for a header. -/
def keyValue (line : Text) : Option (Text × Text) :=
  let colon := line.idxOf ':'
  if colon = line.length then none
  else
    let key := trim isSpace (line.take colon)
    let value := trim isSpace (line.drop (colon + 1))
    some (key, stripQuotes (trim isSpace (stripComment value)))

/-- Close the sections at `indent` or deeper. -/
def closeSections (sections : UMap Nat Text) (indent : Nat) : UMap Nat Text :=
  ⟨sections.entries.filter (·.1 < indent),
    sections.nodupKeys.sublist List.filter_sublist⟩

/-- A line `- item`: it belongs to the pending list if it is indented deeper. -/
def parseItem (st : ParseState) (indent : Nat) (item : Text) : ParseState :=
  let value := stripQuotes (trim isSpace item)
  if value = [] then st
  else if st.pendingListIndent ≥ 0 ∧ (indent : Int) > st.pendingListIndent then
    { st with config := st.config.pushItem st.pendingListKey value }
  else st

/-- A line with a key: a header, an inline list or a scalar. -/
def parseEntry (st : ParseState) (indent : Nat) (key value : Text) (next : Option RawLine) :
    ParseState :=
  let path := currentPrefix st.sectionAtIndent indent
  let fullKey := if path = [] then key else path ++ ['.'] ++ key
  if value = [] then
    match next with
    | some next =>
      if next.content.head? = some '-' then
        { st with pendingListKey := fullKey, pendingListIndent := indent }
      else
        { st with
          sectionAtIndent := st.sectionAtIndent.insert indent key
          pendingListIndent := -1 }
    | none => { st with sectionAtIndent := st.sectionAtIndent.insert indent key }
  else if value.head? = some '[' then
    { st with config := st.config.setItems fullKey (parseInlineList value) }
  else
    { st with
      config := { st.config with settings := st.config.settings.insert fullKey value }
      pendingListIndent := -1 }

/-- The body of the parser's loop; `next` is the line after this one. -/
def parseLine (st : ParseState) (line : RawLine) (next : Option RawLine) : ParseState :=
  let st := { st with sectionAtIndent := closeSections st.sectionAtIndent line.indent }
  match line.content with
  | '-' :: ' ' :: item => parseItem st line.indent item
  | content =>
    match keyValue content with
    | none => st
    | some (key, value) => if key = [] then st else parseEntry st line.indent key value next

def parseLines (st : ParseState) : List RawLine → ParseState
  | [] => st
  | line :: rest => parseLines (parseLine st line rest.head?) rest

def defaultSettings : List (Text × Text) :=
  [("trading.mode".toList, "paper".toList), ("trading.exchange".toList, "alpaca".toList),
    ("trading.initial_capital".toList, "100000".toList)]

def defaultSymbols : List Text :=
  ["AAPL".toList, "MSFT".toList, "GOOGL".toList, "AMZN".toList, "TSLA".toList]

def defaultStrategies : List Text := ["momentum".toList]

/-- The last part of `load_from_file`: the defaults for anything missing. -/
def applyDefaults (c : Config) : Config :=
  { settings := defaultSettings.foldl
      (fun settings d => if d.1 ∈ settings then settings else settings.insert d.1 d.2) c.settings
    tradingSymbols := if c.tradingSymbols = [] then defaultSymbols else c.tradingSymbols
    activeStrategies := if c.activeStrategies = [] then defaultStrategies else c.activeStrategies }

def loadDefaults (c : Config) : Config :=
  { settings := defaultSettings.foldl (fun settings d => settings.insert d.1 d.2) c.settings
    tradingSymbols := defaultSymbols
    activeStrategies := defaultStrategies }

/-- `load_from_file` on the text of the file, or `none` when it cannot be opened. -/
def loadFromFile (c : Config) : Option Text → Bool × Config
  | none => (false, c.loadDefaults)
  | some text =>
    let lines := (getlines '\n' text).filterMap readLine
    (true, (parseLines { config := c } lines).config.applyDefaults)

end Config

end TradingTerminal
