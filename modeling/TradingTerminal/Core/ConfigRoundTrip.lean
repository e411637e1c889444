import TradingTerminal.Core.ConfigParse

/-!
# Loading a rendered document

The parser run over the lines of a rendering: behind the lines of a document the sections open are
those before it, and the configuration holds the leaves seen before it and its own (`Holds`,
`parseLines_renders`). With the defaults for what is missing this is what `load_from_file` returns
(`loaded_of_holds`).
-/

namespace TradingTerminal

open Lib

namespace Config

/-! ## What the configuration holds -/

/-- Before the defaults, the configuration holds the leaves seen so far and nothing else. -/
structure Holds (seen : List (Text × Leaf)) (c : Config) : Prop where
  settings : ∀ path value, c.settings.lookup path = some value ↔ (path, Leaf.value value) ∈ seen
  tradingSymbols : c.tradingSymbols = itemsAt symbolsKey seen
  activeStrategies : c.activeStrategies = itemsAt activeKey seen

theorem itemsAt_append (path : Text) (seen more : List (Text × Leaf)) :
    itemsAt path (seen ++ more) = itemsAt path seen ++ itemsAt path more :=
  List.flatMap_append

theorem itemsAt_value (path key value : Text) : itemsAt path [(key, .value value)] = [] := rfl

theorem itemsAt_items (path key : Text) (items : List Text) :
    itemsAt path [(key, .items items)] = if key = path then items else [] :=
  List.append_nil _

/-- A path that was not seen has no items. -/
theorem itemsAt_of_notMem {path : Text} {seen : List (Text × Leaf)}
    (h : path ∉ seen.map Prod.fst) : itemsAt path seen = [] := by
  refine List.flatMap_eq_nil_iff.2 ?_
  rintro ⟨key, leaf⟩ hmem
  cases leaf with
  | value value => rfl
  | items items =>
    refine if_neg ?_
    rintro rfl
    exact h (List.mem_map_of_mem hmem)

theorem symbolsKey_ne_activeKey : symbolsKey ≠ activeKey := by decide

/-- Pushing items one by one appends them to the list of their key, if it is one of the two. -/
theorem foldl_pushItem (key : Text) (items : List Text) (c : Config) :
    items.foldl (fun c item => c.pushItem key item) c =
      { c with
        tradingSymbols := c.tradingSymbols ++ if key = symbolsKey then items else []
        activeStrategies := c.activeStrategies ++ if key = activeKey then items else [] } := by
  induction items generalizing c with
  | nil => simp
  | cons item items ih =>
    rw [List.foldl_cons, ih]
    unfold pushItem
    by_cases hsymbols : key = symbolsKey
    · simp [hsymbols, symbolsKey_ne_activeKey]
    · by_cases hactive : key = activeKey
      · simp [hactive, symbolsKey_ne_activeKey.symm]
      · simp [hsymbols, hactive]

theorem setItems_eq (c : Config) (key : Text) (items : List Text) :
    c.setItems key items =
      { c with
        tradingSymbols := if key = symbolsKey then items else c.tradingSymbols
        activeStrategies := if key = activeKey then items else c.activeStrategies } := by
  unfold setItems
  by_cases hsymbols : key = symbolsKey
  · simp [hsymbols, symbolsKey_ne_activeKey]
  · by_cases hactive : key = activeKey
    · simp [hactive, symbolsKey_ne_activeKey.symm]
    · simp [hsymbols, hactive]

namespace Holds

variable {seen : List (Text × Leaf)} {c : Config} {path : Text}

theorem empty : Holds [] {} := by
  refine ⟨?_, rfl, rfl⟩
  intro path value
  simp

/-- A scalar under a new path. -/
theorem value (h : Holds seen c) (hnew : path ∉ seen.map Prod.fst) (value : Text) :
    Holds (seen ++ [(path, .value value)])
      { c with settings := c.settings.insert path value } := by
  refine ⟨?_, ?_, ?_⟩
  · intro key v
    by_cases hkey : key = path
    · have hother : (path, Leaf.value v) ∉ seen := fun hmem => hnew (List.mem_map_of_mem hmem)
      rw [hkey, AList.lookup_insert]
      simp [hother, eq_comm]
    · rw [AList.lookup_insert_ne hkey, h.settings]
      simp [hkey]
  · rw [itemsAt_append, itemsAt_value, List.append_nil]
    exact h.tradingSymbols
  · rw [itemsAt_append, itemsAt_value, List.append_nil]
    exact h.activeStrategies

/-- A block list, pushed item by item. -/
theorem block (h : Holds seen c) (path : Text) (items : List Text) :
    Holds (seen ++ [(path, .items items)]) (items.foldl (fun c item => c.pushItem path item) c) := by
  rw [foldl_pushItem]
  refine ⟨?_, ?_, ?_⟩
  · intro key v
    rw [h.settings]
    simp
  · rw [itemsAt_append, itemsAt_items, h.tradingSymbols]
  · rw [itemsAt_append, itemsAt_items, h.activeStrategies]

/-- An inline list replaces what is there, which under a new path is nothing. -/
theorem inline (h : Holds seen c) (hnew : path ∉ seen.map Prod.fst) (items : List Text) :
    Holds (seen ++ [(path, .items items)]) (c.setItems path items) := by
  have hlist : ∀ key, (if path = key then items else itemsAt key seen) =
      itemsAt key (seen ++ [(path, .items items)]) := by
    intro key
    rw [itemsAt_append, itemsAt_items]
    split
    · next heq =>
      rw [← heq, itemsAt_of_notMem hnew, List.nil_append]
    · rw [List.append_nil]
  rw [setItems_eq]
  refine ⟨?_, ?_, ?_⟩
  · intro key v
    rw [h.settings]
    simp
  · rw [h.tradingSymbols, hlist]
  · rw [h.activeStrategies, hlist]

end Holds

theorem notMem_of_distinct {seen more : List (Text × Leaf)} {path : Text} {leaf : Leaf}
    (h : ((seen ++ [(path, leaf)] ++ more).map Prod.fst).Nodup) : path ∉ seen.map Prod.fst := by
  rw [List.append_assoc, List.map_append, List.nodup_append'] at h
  exact fun hmem => h.2.2 hmem (by simp)

/-! ## The lines of a document -/

/-- A line with a key is read as its body. -/
theorem IsBody.readLine {indent : Nat} {body key value line : Text} (h : IsBody body key value)
    (hline : Line indent body line) : readLine line = some { indent, content := body } :=
  readLine_line hline h.plain h.trimmed h.nonempty

/-- The line of an item is read as its body, which starts with a dash. -/
theorem IsItemLine.readLine {indent : Nat} {item body line : Text} (hitem : Document.IsItem item)
    (h : IsItemLine item body) (hline : Line indent body line) :
    readLine line = some { indent, content := body } ∧ body.head? = some '-' := by
  obtain ⟨w, hw, rfl⟩ := h
  refine ⟨readLine_line hline ?_ ?_ (by simp), rfl⟩
  · have hdash : Plain ['-', ' '] := plain_of_notMem (by decide) (by decide)
    exact hdash.append ((Blank.plain hw).append (plain_of_notMem hitem.noHash hitem.noQuote))
  · have hdash : Trimmed isSpace ['-'] := trimmed_singleton rfl
    exact hdash.of_ends (by simp) hitem.trimmed hitem.nonempty (' ' :: w)

/-- The first line behind the header of a list that carries something is an item. -/
theorem head_rendersItems {indent : Nat} {items lines : List Text}
    (h : RendersItems indent items lines) (hne : items ≠ [])
    (hitems : ∀ item ∈ items, Document.IsItem item) (rest : List RawLine) :
    ∃ next, (lines.filterMap readLine ++ rest).head? = some next ∧
      next.content.head? = some '-' := by
  induction h with
  | nil => exact absurd rfl hne
  | filler hline h ih =>
    rw [List.filterMap_cons_none (readLine_filler hline)]
    exact ih hne hitems
  | item hbody hline h ih =>
    obtain ⟨hread, hhead⟩ := IsItemLine.readLine (hitems _ List.mem_cons_self) hbody hline
    rw [List.filterMap_cons_some hread]
    exact ⟨_, rfl, hhead⟩

/-- The first line behind the header of a section that carries something is no item. -/
theorem head_renders {indent : Nat} {doc : Document} {lines : List Text}
    (h : Renders indent doc lines) (hne : doc ≠ .nil) (hwf : doc.WellFormed) (rest : List RawLine) :
    ∃ next, (lines.filterMap readLine ++ rest).head? = some next ∧
      next.content.head? ≠ some '-' := by
  have hentry : ∀ {body key value line : Text} {lines : List Text}, IsBody body key value →
      Line indent body line → ∃ next, ((line :: lines).filterMap readLine ++ rest).head? = some next ∧
        next.content.head? ≠ some '-' := by
    intro body key value line lines hbody hline
    rw [List.filterMap_cons_some (hbody.readLine hline)]
    exact ⟨_, rfl, hbody.noDash⟩
  induction h with
  | nil => exact absurd rfl hne
  | filler hline h ih =>
    rw [List.filterMap_cons_none (readLine_filler hline)]
    exact ih hne hwf hentry
  | scalar htext hbody hline hrest ih =>
    obtain ⟨hkey, hvalue, -⟩ := hwf
    exact hentry (isBody_pair hkey (isText_value hvalue htext) hbody) hline
  | blockList hbody hline deeper hitems hrest ih => exact hentry (isBody_header hwf.1 hbody) hline
  | inlineList htext hbody hline hrest ih =>
    obtain ⟨hkey, hitems, -⟩ := hwf
    exact hentry (isBody_pair hkey (isText_inline htext hitems).1 hbody) hline
  | sect hbody hline deeper hentries hrest ihEntries ih =>
    exact hentry (isBody_header hwf.1 hbody) hline

/-- The items of a block list all go to the pending list. -/
theorem parseLines_rendersItems {indent inner : Nat} {outer : Ancestors} (deeper : indent < inner)
    {items lines : List Text} (h : RendersItems inner items lines)
    (hitems : ∀ item ∈ items, Document.IsItem item) {st : ParseState}
    (hinside : Inside st.sectionAtIndent indent outer) (hpending : st.pendingListIndent = indent)
    (rest : List RawLine) :
    ∃ st', parseLines st (lines.filterMap readLine ++ rest) = parseLines st' rest ∧
      Inside st'.sectionAtIndent indent outer ∧
      st'.config = items.foldl (fun c item => c.pushItem st.pendingListKey item) st.config := by
  induction h generalizing st with
  | nil => exact ⟨st, rfl, hinside, rfl⟩
  | filler hline h ih =>
    rw [List.filterMap_cons_none (readLine_filler hline)]
    exact ih hitems hinside hpending
  | @item item items body line lines hbody hline h ih =>
    have hitem := hitems item List.mem_cons_self
    rw [List.filterMap_cons_some (IsItemLine.readLine hitem hbody hline).1, List.cons_append,
      parseLines, List.foldl_cons]
    obtain ⟨hin, hconfig, hkey, hindent⟩ := parseLine_item hinside hpending deeper hitem hbody
      (lines.filterMap readLine ++ rest).head?
    obtain ⟨st', hrun, hinside', hconfig'⟩ :=
      ih (fun x hx => hitems x (List.mem_cons_of_mem item hx)) hin hindent
    rw [hkey, hconfig] at hconfig'
    exact ⟨st', hrun, hinside', hconfig'⟩

/-- The lines of a document, parsed inside the sections `outer`, add its leaves. -/
theorem parseLines_renders {indent : Nat} {doc : Document} {lines : List Text}
    (h : Renders indent doc lines) (hwf : doc.WellFormed) {outer : Ancestors} {st : ParseState}
    (hinside : Inside st.sectionAtIndent indent outer) {seen : List (Text × Leaf)}
    (hholds : Holds seen st.config)
    (distinct : ((seen ++ doc.leaves outer.names).map Prod.fst).Nodup) (rest : List RawLine) :
    ∃ st', parseLines st (lines.filterMap readLine ++ rest) = parseLines st' rest ∧
      Inside st'.sectionAtIndent indent outer ∧ Holds (seen ++ doc.leaves outer.names) st'.config := by
  induction h generalizing outer st seen rest with
  | nil =>
    rw [Document.leaves, List.append_nil]
    exact ⟨st, rfl, hinside, hholds⟩
  | filler hline h ih =>
    rw [List.filterMap_cons_none (readLine_filler hline)]
    exact ih hwf hinside hholds distinct rest
  | @scalar indent key value text body line doc lines htext hbody hline hrest ih =>
    obtain ⟨hkey, hvalue, hwf⟩ := hwf
    have hbody := isBody_pair hkey (isText_value hvalue htext) hbody
    rw [List.filterMap_cons_some (hbody.readLine hline), List.cons_append, parseLines]
    obtain ⟨hin, hconfig⟩ := parseLine_scalar hinside hbody hkey.nonempty hvalue
      (lines.filterMap readLine ++ rest).head?
    rw [Document.leaves, List.append_cons] at distinct ⊢
    refine ih hwf hin ?_ distinct rest
    rw [hconfig]
    exact hholds.value (notMem_of_distinct distinct) value
  | @blockList indent inner key body line items doc itemLines lines hbody hline deeper hitems hrest ih =>
    obtain ⟨hkey, hne, hall, hwf⟩ := hwf
    have hbody := isBody_header hkey hbody
    rw [List.filterMap_cons_some (hbody.readLine hline), List.cons_append, parseLines,
      List.filterMap_append, List.append_assoc]
    obtain ⟨next, hhead, hdash⟩ :=
      head_rendersItems hitems hne hall (lines.filterMap readLine ++ rest)
    rw [hhead]
    obtain ⟨hin, hconfig, hpath, hindent⟩ := parseLine_list hinside hbody hkey.nonempty hdash
    obtain ⟨st', hrun, hin', hconfig'⟩ :=
      parseLines_rendersItems deeper hitems hall hin hindent (lines.filterMap readLine ++ rest)
    rw [hrun]
    rw [Document.leaves, List.append_cons] at distinct ⊢
    refine ih hwf hin' ?_ distinct rest
    rw [hconfig', hpath, hconfig]
    exact hholds.block _ items
  | @inlineList indent key text body line items doc lines htext hbody hline hrest ih =>
    obtain ⟨hkey, hall, hwf⟩ := hwf
    obtain ⟨hread, hitems⟩ := isText_inline htext hall
    have hbody := isBody_pair hkey hread hbody
    rw [List.filterMap_cons_some (hbody.readLine hline), List.cons_append, parseLines]
    obtain ⟨hin, hconfig⟩ := parseLine_inline hinside hbody hkey.nonempty
      (lines.filterMap readLine ++ rest).head?
    rw [Document.leaves, List.append_cons] at distinct ⊢
    refine ih hwf hin ?_ distinct rest
    rw [hconfig, hitems]
    exact hholds.inline (notMem_of_distinct distinct) items
  | @sect indent inner key body line entries doc entryLines lines hbody hline deeper hentries hrest
      ihEntries ih =>
    obtain ⟨hkey, hne, hwfEntries, hwf⟩ := hwf
    have hbody := isBody_header hkey hbody
    rw [List.filterMap_cons_some (hbody.readLine hline), List.cons_append, parseLines,
      List.filterMap_append, List.append_assoc]
    obtain ⟨next, hhead, hdash⟩ :=
      head_renders hentries hne hwfEntries (lines.filterMap readLine ++ rest)
    rw [hhead]
    obtain ⟨hin, hconfig⟩ := parseLine_section hinside hbody hkey.nonempty hdash deeper
    have hnames : Ancestors.names (outer ++ [⟨indent, key⟩]) = outer.names ++ [key] := by
      simp [Ancestors.names]
    rw [Document.leaves, ← hnames, ← List.append_assoc seen] at distinct ⊢
    have hentries : ((seen ++ entries.leaves (Ancestors.names (outer ++ [⟨indent, key⟩]))).map
        Prod.fst).Nodup := by
      rw [List.map_append] at distinct
      exact (List.nodup_append'.1 distinct).1
    obtain ⟨st', hrun, hin', hholds'⟩ := ihEntries hwfEntries hin (hconfig ▸ hholds) hentries
      (lines.filterMap readLine ++ rest)
    rw [hrun]
    exact ih hwf (hin'.leave deeper fun e he => hinside.lt he) hholds' distinct rest

/-! ## The defaults -/

/-- A default is stored unless its key is taken. -/
theorem lookup_applyDefaults (defaults : List (Text × Text))
    (distinct : (defaults.map Prod.fst).Nodup) (settings : UMap Text Text) (path value : Text) :
    (defaults.foldl (fun settings d => if d.1 ∈ settings then settings
      else settings.insert d.1 d.2) settings).lookup path = some value ↔
      settings.lookup path = some value ∨
        (path, value) ∈ defaults ∧ settings.lookup path = none := by
  induction defaults generalizing settings with
  | nil => simp
  | cons d defaults ih =>
    obtain ⟨hnew, hrest⟩ := List.nodup_cons.1 distinct
    rw [List.foldl_cons, ih hrest]
    by_cases htaken : d.1 ∈ settings
    · have hother : settings.lookup path = none → (path, value) ≠ d := by
        rintro hnone rfl
        exact AList.lookup_eq_none.1 hnone htaken
      rw [if_pos htaken, List.mem_cons]
      tauto
    · have hnone : settings.lookup d.1 = none := AList.lookup_eq_none.2 htaken
      rw [if_neg htaken, List.mem_cons]
      by_cases hpath : path = d.1
      · have hlater : (d.1, value) ∉ defaults := fun hmem =>
          hnew (List.mem_map.2 ⟨_, hmem, rfl⟩)
        rw [hpath, AList.lookup_insert, hnone]
        simp [hlater, Prod.ext_iff, eq_comm]
      · have hother : (path, value) ≠ d := fun heq => hpath (congrArg Prod.fst heq)
        rw [AList.lookup_insert_ne hpath]
        tauto

/-- What `load_from_file` returns once the configuration holds the leaves of a document. -/
theorem loaded_of_holds {leaves : List (Text × Leaf)} {c : Config} (h : Holds leaves c) :
    Document.Loaded leaves c.applyDefaults := by
  refine ⟨?_, ?_, ?_⟩
  · intro path value
    unfold applyDefaults
    dsimp only
    rw [lookup_applyDefaults defaultSettings (by decide), h.settings]
    refine or_congr Iff.rfl (and_congr Iff.rfl ?_)
    rw [Option.eq_none_iff_forall_ne_some]
    exact forall_congr' fun v => not_congr (h.settings path v)
  · unfold applyDefaults
    dsimp only
    rw [h.tradingSymbols]
    rfl
  · unfold applyDefaults
    dsimp only
    rw [h.activeStrategies]
    rfl

end Config

/-- `Config::load_from_file` on a fresh configuration reads a document back from any text that
renders it: its values, with the defaults for the settings that have none, and its lists. -/
theorem loadFromFile_loaded (doc : Document) (hwf : doc.WellFormed)
    (distinct : ((doc.leaves []).map Prod.fst).Nodup) (indent : Nat) (text : Text)
    (h : Renders indent doc (getlines '\n' text)) :
    (Config.loadFromFile {} (some text)).1 = true ∧
      Document.Loaded (doc.leaves []) (Config.loadFromFile {} (some text)).2 := by
  refine ⟨rfl, Config.loaded_of_holds ?_⟩
  have hinside : Config.Inside (Config.ParseState.mk {} ∅ [] (-1)).sectionAtIndent indent [] :=
    Config.Inside.empty indent
  obtain ⟨st, hrun, -, hholds⟩ := Config.parseLines_renders h hwf hinside Config.Holds.empty distinct []
  rw [List.append_nil] at hrun
  rw [hrun]
  exact hholds

/-- A section with a quoted value, a comment and a block list, and an inline list. -/
def sampleText : Text :=
  "t:\n  mode: \"a#b\" # live\n\n  x:\n    - AA\nstrategies.active: [x, y]".toList

def sampleDocument : Document :=
  .sect "t".toList (.scalar "mode".toList "a#b".toList (.blockList "x".toList ["AA".toList] .nil))
    (.inlineList "strategies.active".toList ["x".toList, "y".toList] .nil)

/-- A body behind a margin of spaces. -/
theorem line_spaces (n : Nat) (body : Text) : Line n body (List.replicate n ' ' ++ body) := by
  refine ⟨List.replicate n ' ', [], by simp, ?_, ?_, .blank (by simp [Blank])⟩
  · intro c hc
    exact Or.inl (List.eq_of_mem_replicate hc)
  · induction n with
    | zero => rfl
    | succ n ih => rw [List.replicate_succ, Config.indentOf, ih]

theorem sampleText_renders : Renders 0 sampleDocument (getlines '\n' sampleText) := by
  have hnone : Blank isSpace [] := by decide
  have hspace : Blank isSpace [' '] := by decide
  have hitem : IsItemLine "AA".toList "- AA".toList := ⟨[], hnone, rfl⟩
  have hx : IsHeader "x".toList "x:".toList := ⟨[], hnone, rfl⟩
  have hlist := Renders.blockList hx (line_spaces 2 _) (by decide : 2 < 4)
    (.item hitem (line_spaces 4 _) .nil) .nil
  have hquoted : WritesValue "a#b".toList ('"' :: ("a#b".toList ++ ['"'])) := .quoted
  have hpair : IsPair "mode".toList ('"' :: ("a#b".toList ++ ['"'])) "mode: \"a#b\"".toList :=
    ⟨[], hnone, [' '], hspace, rfl⟩
  have hline : Line 2 "mode: \"a#b\"".toList "  mode: \"a#b\" # live".toList :=
    ⟨[' ', ' '], " # live".toList, rfl, by simp, rfl, Tail.comment hspace " live".toList⟩
  have hmode := Renders.scalar hquoted hpair hline
    (.filler (.blank hnone) hlist)
  have hinner := WritesItems.cons "x".toList hnone hnone (by decide)
    (.last "y".toList hspace hnone)
  have hactive : IsPair "strategies.active".toList "[x, y]".toList "strategies.active: [x, y]".toList :=
    ⟨[], hnone, [' '], hspace, rfl⟩
  have ht : IsHeader "t".toList "t:".toList := ⟨[], hnone, rfl⟩
  exact Renders.sect ht (line_spaces 0 _) (by decide : 0 < 2) hmode
    (.inlineList hinner hactive (line_spaces 0 _) .nil)

theorem sampleText_loaded : (Config.loadFromFile {} (some sampleText)).1 = true ∧
    Document.Loaded (sampleDocument.leaves []) (Config.loadFromFile {} (some sampleText)).2 :=
  loadFromFile_loaded sampleDocument (by decide) (by decide) 0 sampleText sampleText_renders

/-- The defaults are settings that the document does not have. -/
theorem oneScalar_not_holds : ¬ ∀ (doc : Document), doc.WellFormed →
    ((doc.leaves []).map Prod.fst).Nodup → ∀ (indent : Nat) (text : Text),
    Renders indent doc (getlines '\n' text) →
    Config.Holds (doc.leaves []) (Config.loadFromFile {} (some text)).2 := by
  intro h
  have hpair : IsPair ['a'] ['b'] "a: b".toList := ⟨[], by decide, [' '], by decide, rfl⟩
  have hrenders : Renders 0 (.scalar ['a'] ['b'] .nil) (getlines '\n' "a: b".toList) :=
    .scalar (.bare (by decide) (by decide)) hpair (line_spaces 0 _) .nil
  have hholds := h (.scalar ['a'] ['b'] .nil) (by decide) (by decide) 0 "a: b".toList hrenders
  have hmode := (hholds.settings "trading.mode".toList "paper".toList).1 (by decide +kernel)
  revert hmode
  decide

end TradingTerminal
