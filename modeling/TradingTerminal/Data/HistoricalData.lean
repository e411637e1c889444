import TradingTerminal.Core.Types
import TradingTerminal.Lib.GeneralFormat
import TradingTerminal.Lib.Text

/-!
# Saved ticks

`data/historical.hpp`: a tick is appended to a file as one line of comma separated fields, and the
lines of a symbol are read back. A stream writes a `double` with six significant digits, so that a
tick comes back as it was saved exactly if its four values need no more
(`loadTicks_saveTicks_iff`). Files are texts, under names that the caller gives.
-/

namespace TradingTerminal

open Lib

namespace HistoricalData

/-- `operator<<` of a stream for a `double`. -/
def doubleText (q : ℚ) : List Char := toGeneral 5 q

def tickLine (tick : Tick) : List Char :=
  ofNat tick.timestamp.toNat ++ ',' ::
    (tick.symbol.toList ++ ',' ::
      (doubleText tick.price ++ ',' ::
        (doubleText tick.volume ++ ',' :: (doubleText tick.bid ++ ',' :: doubleText tick.ask))))

/-- `save_tick` on the file of its name, `none` if there is none yet; `opens` says whether the file
can be opened for writing. -/
def saveTick (opens : Bool) (tick : Tick) (file : Option (List Char)) : Bool × Option (List Char) :=
  if !opens then (false, file) else (true, some (file.getD [] ++ (tickLine tick ++ ['\n'])))

/-- A line of the symbol as a tick. A line with a field that does not convert is skipped. -/
def loadLine (symbol : String) (line : List Char) : Option Tick :=
  match getlines ',' line with
  | timestamp :: name :: price :: volume :: bid :: ask :: _ =>
    if name = symbol.toList then do
      let timestamp ← stoull timestamp
      let price ← stod price
      let volume ← stod volume
      let bid ← stod bid
      let ask ← stod ask
      return { timestamp, symbol := String.ofList name, price, volume, bid, ask }
    else none
  | _ => none

/-- `load_ticks` on the file of its name, `none` if it cannot be opened. -/
def loadTicks (symbol : String) (file : Option (List Char)) : List Tick :=
  match file with
  | none => []
  | some text => (getlines '\n' text).filterMap (loadLine symbol)

/-- What ticks saved one after the other leave of a new file. -/
def saveTicks (ticks : List Tick) : Option (List Char) :=
  ticks.foldl (fun file tick => (saveTick true tick file).2) none

/-! ## One line -/

/-- The symbol cuts neither its line nor its field. -/
structure OneField (symbol : String) : Prop where
  comma : ',' ∉ symbol.toList
  newline : '\n' ∉ symbol.toList

instance (symbol : String) : Decidable (OneField symbol) :=
  decidable_of_iff (',' ∉ symbol.toList ∧ '\n' ∉ symbol.toList)
    ⟨fun h => ⟨h.1, h.2⟩, fun h => ⟨h.comma, h.newline⟩⟩

/-- The value has no more than six significant digits and is in the range of the conversion. -/
def KeptInText (q : ℚ) : Prop := FewDigits 5 q ∧ InDoubleRange q

instance (q : ℚ) : Decidable (KeptInText q) := inferInstanceAs (Decidable (_ ∧ _))

/-- All four values of the tick are kept. -/
structure KeptInLine (tick : Tick) : Prop where
  price : KeptInText tick.price
  volume : KeptInText tick.volume
  bid : KeptInText tick.bid
  ask : KeptInText tick.ask

theorem stod_doubleText_iff {q : ℚ} : stod (doubleText q) = some q ↔ KeptInText q := by
  unfold stod doubleText KeptInText
  rw [Option.filter_eq_some_iff, strtod_toGeneral_iff, decide_eq_true_eq]

theorem notMem_of_numeralChars {s : List Char} (h : ∀ c ∈ s, IsNumeralChar c) :
    ',' ∉ s ∧ '\n' ∉ s := by
  constructor
  · intro hc
    exact absurd (h _ hc) (by decide)
  · intro hc
    exact absurd (h _ hc) (by decide)

theorem doubleText_notMem (q : ℚ) : ',' ∉ doubleText q ∧ '\n' ∉ doubleText q :=
  notMem_of_numeralChars (isNumeralChar_toGeneral 5 q)

theorem doubleText_ne_nil (q : ℚ) : doubleText q ≠ [] := by
  intro hnil
  have hread := strtod_toGeneral 5 q
  rw [doubleText] at hnil
  rw [hnil] at hread
  cases hread

/-- The fields of a line are those of its tick. -/
theorem getlines_tickLine {tick : Tick} (h : OneField tick.symbol) :
    getlines ',' (tickLine tick) =
      [ofNat tick.timestamp.toNat, tick.symbol.toList, doubleText tick.price,
        doubleText tick.volume, doubleText tick.bid, doubleText tick.ask] := by
  have htimestamp := notMem_of_numeralChars (isNumeralChar_ofNat tick.timestamp.toNat)
  unfold tickLine
  rw [getlines_append_delim htimestamp.1, getlines_append_delim h.comma,
    getlines_append_delim (doubleText_notMem _).1, getlines_append_delim (doubleText_notMem _).1,
    getlines_append_delim (doubleText_notMem _).1,
    getlines_of_notMem (doubleText_notMem _).1 (doubleText_ne_nil _)]

theorem newline_notMem_tickLine {tick : Tick} (h : OneField tick.symbol) :
    '\n' ∉ tickLine tick := by
  have htimestamp := notMem_of_numeralChars (isNumeralChar_ofNat tick.timestamp.toNat)
  simp [tickLine, htimestamp.2, h.newline, (doubleText_notMem _).2]

/-- A tick as its own line gives it back. -/
def reread (tick : Tick) : Option Tick := loadLine tick.symbol (tickLine tick)

theorem loadLine_tickLine {tick : Tick} (h : OneField tick.symbol) (symbol : String) :
    loadLine symbol (tickLine tick) = if tick.symbol = symbol then reread tick else none := by
  by_cases hsymbol : tick.symbol = symbol
  · rw [if_pos hsymbol, ← hsymbol, reread]
  · have hname : tick.symbol.toList ≠ symbol.toList := fun heq => hsymbol (String.toList_inj.1 heq)
    rw [if_neg hsymbol, loadLine, getlines_tickLine h]
    exact if_neg hname

theorem reread_eq_some_iff {tick : Tick} (h : OneField tick.symbol) :
    reread tick = some tick ↔ KeptInLine tick := by
  unfold reread loadLine
  rw [getlines_tickLine h]
  simp only [if_true, String.ofList_toList]
  constructor
  · intro hsome
    obtain ⟨_, htimestamp, price, hprice, volume, hvolume, bid, hbid, ask, hask, hsome⟩ :
        ∃ timestamp, stoull (ofNat tick.timestamp.toNat) = some timestamp ∧
          ∃ price, stod (doubleText tick.price) = some price ∧
            ∃ volume, stod (doubleText tick.volume) = some volume ∧
              ∃ bid, stod (doubleText tick.bid) = some bid ∧
                ∃ ask, stod (doubleText tick.ask) = some ask ∧
                  some { timestamp, symbol := tick.symbol, price, volume, bid, ask } =
                    some tick := by
      simpa only [Option.bind_eq_bind, Option.bind_eq_some_iff, Option.pure_def] using hsome
    have heq := Option.some.inj hsome
    obtain rfl : price = tick.price := congrArg Tick.price heq
    obtain rfl : volume = tick.volume := congrArg Tick.volume heq
    obtain rfl : bid = tick.bid := congrArg Tick.bid heq
    obtain rfl : ask = tick.ask := congrArg Tick.ask heq
    exact ⟨stod_doubleText_iff.1 hprice, stod_doubleText_iff.1 hvolume, stod_doubleText_iff.1 hbid,
      stod_doubleText_iff.1 hask⟩
  · rintro ⟨hprice, hvolume, hbid, hask⟩
    rw [stoull_ofNat, stod_doubleText_iff.2 hprice, stod_doubleText_iff.2 hvolume,
      stod_doubleText_iff.2 hbid, stod_doubleText_iff.2 hask]
    rfl

/-! ## The file -/

theorem saveTicks_concat (ticks : List Tick) (tick : Tick) :
    saveTicks (ticks ++ [tick]) = some ((saveTicks ticks).getD [] ++ (tickLine tick ++ ['\n'])) := by
  unfold saveTicks
  rw [List.foldl_append]
  rfl

/-- The lines of the file are those of the ticks, in the order saved. -/
theorem saveTicks_lines {ticks : List Tick} (h : ∀ tick ∈ ticks, OneField tick.symbol)
    (rest : List Char) :
    getlines '\n' ((saveTicks ticks).getD [] ++ rest) =
      ticks.map tickLine ++ getlines '\n' rest := by
  induction ticks using List.reverseRecOn generalizing rest with
  | nil => rfl
  | append_singleton ticks tick ih =>
    have hline := newline_notMem_tickLine (h tick (by simp))
    rw [saveTicks_concat, Option.getD_some, List.append_assoc, List.append_assoc,
      ih fun t ht => h t (List.mem_append_left _ ht), List.singleton_append,
      getlines_append_delim hline, List.map_append, List.append_assoc]
    rfl

/-- Loading looks at the lines of the symbol, each on its own. -/
theorem loadTicks_saveTicks {ticks : List Tick} (h : ∀ tick ∈ ticks, OneField tick.symbol)
    (symbol : String) :
    loadTicks symbol (saveTicks ticks) = (ticks.filter (·.symbol = symbol)).filterMap reread := by
  have hlines := saveTicks_lines h []
  rw [List.append_nil, getlines, List.append_nil] at hlines
  have hload : loadTicks symbol (saveTicks ticks) =
      (getlines '\n' ((saveTicks ticks).getD [])).filterMap (loadLine symbol) := by
    unfold loadTicks
    cases saveTicks ticks <;> rfl
  rw [hload, hlines, List.filterMap_map, ← List.filterMap_eq_filter, List.filterMap_filterMap]
  apply List.filterMap_congr
  intro tick htick
  rw [Function.comp_apply, loadLine_tickLine (h tick htick)]
  by_cases hsymbol : tick.symbol = symbol <;> simp [Option.guard, hsymbol]

/-- **Saved ticks come back.** The ticks of a symbol are loaded as they were saved exactly if all of
their values are kept in the text. -/
theorem loadTicks_saveTicks_iff {ticks : List Tick} (h : ∀ tick ∈ ticks, OneField tick.symbol)
    (symbol : String) :
    loadTicks symbol (saveTicks ticks) = ticks.filter (·.symbol = symbol) ↔
      ∀ tick ∈ ticks, tick.symbol = symbol → KeptInLine tick := by
  have hkept : (ticks.filter (·.symbol = symbol)).filterMap reread =
      (ticks.filter (·.symbol = symbol)).map id ↔
        ∀ tick ∈ ticks.filter (·.symbol = symbol), reread tick = some tick :=
    List.filterMap_eq_map_iff_forall_eq_some
  rw [List.map_id] at hkept
  rw [loadTicks_saveTicks h, hkept]
  constructor
  · intro hreread tick htick hsymbol
    exact (reread_eq_some_iff (h tick htick)).1
      (hreread tick (List.mem_filter.2 ⟨htick, by simpa using hsymbol⟩))
  · intro hall tick htick
    obtain ⟨htick, hsymbol⟩ := List.mem_filter.1 htick
    exact (reread_eq_some_iff (h tick htick)).2 (hall tick htick (by simpa using hsymbol))

/-- Two ticks of different symbols in one file. -/
def hundredDollars : List Tick :=
  [{ timestamp := 1700000000000000000, symbol := "AAPL", price := 150.25, volume := 1000,
     bid := 150.24, ask := 150.26 },
   { timestamp := 1700000001000000000, symbol := "MSFT", price := 370.5, volume := 200,
     bid := 370.49, ask := 370.51 }]

theorem hundredDollars_kept :
    loadTicks "AAPL" (saveTicks hundredDollars) = hundredDollars.filter (·.symbol = "AAPL") := by
  have hfields : ∀ tick ∈ hundredDollars, OneField tick.symbol := by decide +kernel
  refine (loadTicks_saveTicks_iff hfields "AAPL").2 fun tick htick _ => ?_
  have hvalues : ∀ tick ∈ hundredDollars, KeptInText tick.price ∧ KeptInText tick.volume ∧
      KeptInText tick.bid ∧ KeptInText tick.ask := by decide +kernel
  obtain ⟨hprice, hvolume, hbid, hask⟩ := hvalues tick htick
  exact ⟨hprice, hvolume, hbid, hask⟩

/-- A price with five digits before the point and two behind it. -/
def fiveDigitPrice : Tick :=
  { timestamp := 1700000000000000000, symbol := "NKY", price := 38457.25, volume := 10,
    bid := 38450, ask := 38460 }

/-- The price comes back without its last digit. -/
theorem fiveDigitPrice_changed :
    fiveDigitPrice.symbol ≠ "" ∧ OneField fiveDigitPrice.symbol ∧
      loadTicks "NKY" (saveTicks [fiveDigitPrice]) = [{ fiveDigitPrice with price := 38457.2 }] ∧
      loadTicks "NKY" (saveTicks [fiveDigitPrice]) ≠ [fiveDigitPrice].filter (·.symbol = "NKY") := by
  decide +kernel

end HistoricalData

end TradingTerminal
