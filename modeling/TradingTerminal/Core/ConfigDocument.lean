import TradingTerminal.Core.Config

/-!
# Configuration documents

What a configuration file means, apart from how it is parsed: a `Document` is an ordered tree of
sections, scalars and lists, and `Renders` says that lines of text write a document down. The leaves
of a document, under their dotted paths, are what a parser should find (`Document.Loaded`).
-/

namespace TradingTerminal

open Lib

/-- The entries of one level, in order: each constructor is an entry followed by the `rest` of its
level. -/
inductive Document where
  | nil
  | scalar (key value : Text) (rest : Document)
  | blockList (key : Text) (items : List Text) (rest : Document)
  | inlineList (key : Text) (items : List Text) (rest : Document)
  | sect (key : Text) (entries rest : Document)
  deriving DecidableEq

/-- What stands at a dotted path: the value of a scalar, or the items of a list. -/
inductive Leaf where
  | value (value : Text)
  | items (items : List Text)
  deriving DecidableEq

/-- A dotted path. -/
def dotted (names : List Text) : Text := ['.'].intercalate names

namespace Document

/-- The leaves of a document inside the sections `outer`, with their dotted paths. -/
def leaves (outer : List Text) : Document → List (Text × Leaf)
  | nil => []
  | scalar key value rest => (dotted (outer ++ [key]), .value value) :: leaves outer rest
  | blockList key items rest => (dotted (outer ++ [key]), .items items) :: leaves outer rest
  | inlineList key items rest => (dotted (outer ++ [key]), .items items) :: leaves outer rest
  | sect key entries rest => leaves (outer ++ [key]) entries ++ leaves outer rest

/-! ## Well-formed documents -/

/-- A key: no `:`, `#` or quote, no space around it, no dash at its front. -/
@[mk_iff]
structure IsKey (key : Text) : Prop where
  nonempty : key ≠ []
  trimmed : Trimmed isSpace key
  noDash : key.head? ≠ some '-'
  noColon : ':' ∉ key
  noHash : '#' ∉ key
  noQuote : '"' ∉ key

/-- The value of a scalar, without the quotes it may be written in. -/
@[mk_iff]
structure IsValue (value : Text) : Prop where
  nonempty : value ≠ []
  noBracket : value.head? ≠ some '['
  noQuote : '"' ∉ value

@[mk_iff]
structure IsItem (item : Text) : Prop where
  nonempty : item ≠ []
  trimmed : Trimmed isSpace item
  noComma : ',' ∉ item
  noBracket : ']' ∉ item
  noHash : '#' ∉ item
  noQuote : '"' ∉ item

instance : DecidablePred IsKey := fun key => decidable_of_iff _ (isKey_iff key).symm

instance : DecidablePred IsValue := fun value => decidable_of_iff _ (isValue_iff value).symm

instance : DecidablePred IsItem := fun item => decidable_of_iff _ (isItem_iff item).symm

/-- Keys, values and items are as the format has them; sections and block lists are not empty. -/
def WellFormed : Document → Prop
  | nil => True
  | scalar key value rest => IsKey key ∧ IsValue value ∧ rest.WellFormed
  | blockList key items rest =>
    IsKey key ∧ items ≠ [] ∧ (∀ item ∈ items, IsItem item) ∧ rest.WellFormed
  | inlineList key items rest => IsKey key ∧ (∀ item ∈ items, IsItem item) ∧ rest.WellFormed
  | sect key entries rest => IsKey key ∧ entries ≠ nil ∧ entries.WellFormed ∧ rest.WellFormed

instance decidableWellFormed : (doc : Document) → Decidable doc.WellFormed
  | nil => isTrue trivial
  | scalar key value rest =>
    have := decidableWellFormed rest
    inferInstanceAs (Decidable (IsKey key ∧ IsValue value ∧ rest.WellFormed))
  | blockList key items rest =>
    have := decidableWellFormed rest
    inferInstanceAs (Decidable
      (IsKey key ∧ items ≠ [] ∧ (∀ item ∈ items, IsItem item) ∧ rest.WellFormed))
  | inlineList key items rest =>
    have := decidableWellFormed rest
    inferInstanceAs (Decidable (IsKey key ∧ (∀ item ∈ items, IsItem item) ∧ rest.WellFormed))
  | sect key entries rest =>
    have := decidableWellFormed entries
    have := decidableWellFormed rest
    inferInstanceAs (Decidable
      (IsKey key ∧ entries ≠ nil ∧ entries.WellFormed ∧ rest.WellFormed))

end Document

/-! ## Renderings -/

/-- What may follow the text of a line: space, and a comment. -/
inductive Tail : Text → Prop
  | blank {w : Text} (hw : Blank isSpace w) : Tail w
  | comment {w : Text} (hw : Blank isSpace w) (comment : Text) : Tail (w ++ '#' :: comment)

/-- A line that carries nothing: blank, or only a comment. -/
def Filler (line : Text) : Prop := Tail line

/-- A line of indent `indent` with the text `body`, and a tail. -/
structure Line (indent : Nat) (body line : Text) : Prop where
  parts : ∃ margin tail, line = margin ++ (body ++ tail) ∧ (∀ c ∈ margin, c = ' ' ∨ c = '\t') ∧
    Config.indentOf margin = indent ∧ Tail tail

/-- `key:`, with space allowed before the colon. -/
def IsHeader (key body : Text) : Prop := ∃ w, Blank isSpace w ∧ body = key ++ (w ++ [':'])

/-- `key: text`, with space allowed around the colon. -/
def IsPair (key text body : Text) : Prop :=
  ∃ w, Blank isSpace w ∧ ∃ v, Blank isSpace v ∧ body = key ++ (w ++ ':' :: (v ++ text))

/-- How a value is written: bare, when it has no `#` and no space around it, or in quotes. -/
inductive WritesValue (value : Text) : Text → Prop
  | bare (hash : '#' ∉ value) (trimmed : Trimmed isSpace value) : WritesValue value value
  | quoted : WritesValue value ('"' :: (value ++ ['"']))

/-- The text between the brackets of an inline list: the items with commas between them, and space
around each. -/
inductive WritesItems : List Text → Text → Prop
  | nil {w : Text} (hw : Blank isSpace w) : WritesItems [] w
  | last {w v : Text} (item : Text) (hw : Blank isSpace w) (hv : Blank isSpace v) :
      WritesItems [item] (w ++ (item ++ v))
  | cons {w v inner : Text} {items : List Text} (item : Text) (hw : Blank isSpace w)
      (hv : Blank isSpace v) (hne : items ≠ []) (h : WritesItems items inner) :
      WritesItems (item :: items) (w ++ (item ++ (v ++ ',' :: inner)))

/-- `- item`, with more space allowed after the first. -/
def IsItemLine (item body : Text) : Prop := ∃ w, Blank isSpace w ∧ body = '-' :: ' ' :: (w ++ item)

/-- The lines of a block list's items, all at one indent. -/
inductive RendersItems (indent : Nat) : List Text → List Text → Prop
  | nil : RendersItems indent [] []
  | filler {items : List Text} {line : Text} {lines : List Text} (hline : Filler line)
      (h : RendersItems indent items lines) : RendersItems indent items (line :: lines)
  | item {item : Text} {items : List Text} {body line : Text} {lines : List Text}
      (hbody : IsItemLine item body) (hline : Line indent body line)
      (h : RendersItems indent items lines) : RendersItems indent (item :: items) (line :: lines)

/-- The lines of the entries of one level, all at one indent, with what a header introduces at a
deeper one. -/
inductive Renders : Nat → Document → List Text → Prop
  | nil {indent : Nat} : Renders indent .nil []
  | filler {indent : Nat} {doc : Document} {line : Text} {lines : List Text} (hline : Filler line)
      (h : Renders indent doc lines) : Renders indent doc (line :: lines)
  | scalar {indent : Nat} {key value text body line : Text} {rest : Document} {lines : List Text}
      (htext : WritesValue value text) (hbody : IsPair key text body)
      (hline : Line indent body line) (hrest : Renders indent rest lines) :
      Renders indent (.scalar key value rest) (line :: lines)
  | blockList {indent inner : Nat} {key body line : Text} {items : List Text} {rest : Document}
      {itemLines lines : List Text} (hbody : IsHeader key body) (hline : Line indent body line)
      (deeper : indent < inner) (hitems : RendersItems inner items itemLines)
      (hrest : Renders indent rest lines) :
      Renders indent (.blockList key items rest) (line :: (itemLines ++ lines))
  | inlineList {indent : Nat} {key text body line : Text} {items : List Text} {rest : Document}
      {lines : List Text} (htext : WritesItems items text)
      (hbody : IsPair key ('[' :: (text ++ [']'])) body) (hline : Line indent body line)
      (hrest : Renders indent rest lines) :
      Renders indent (.inlineList key items rest) (line :: lines)
  | sect {indent inner : Nat} {key body line : Text} {entries rest : Document}
      {entryLines lines : List Text} (hbody : IsHeader key body) (hline : Line indent body line)
      (deeper : indent < inner) (hentries : Renders inner entries entryLines)
      (hrest : Renders indent rest lines) :
      Renders indent (.sect key entries rest) (line :: (entryLines ++ lines))

/-! ## What should be loaded -/

/-- The items of the list at a path; none if there is no such list. -/
def itemsAt (path : Text) (leaves : List (Text × Leaf)) : List Text :=
  leaves.flatMap fun leaf =>
    match leaf with
    | (p, .items items) => if p = path then items else []
    | (_, .value _) => []

/-- A configuration holds the leaves of a document: their values, with the defaults for the settings
that have none, and the items of the two lists that are kept, with the defaults for an empty one. -/
structure Document.Loaded (leaves : List (Text × Leaf)) (c : Config) : Prop where
  settings : ∀ path value, c.settings.lookup path = some value ↔
    (path, Leaf.value value) ∈ leaves ∨
      (path, value) ∈ Config.defaultSettings ∧ ∀ v, (path, Leaf.value v) ∉ leaves
  tradingSymbols : c.tradingSymbols =
    if itemsAt "trading.symbols".toList leaves = [] then Config.defaultSymbols
    else itemsAt "trading.symbols".toList leaves
  activeStrategies : c.activeStrategies =
    if itemsAt "strategies.active".toList leaves = [] then Config.defaultStrategies
    else itemsAt "strategies.active".toList leaves

end TradingTerminal
