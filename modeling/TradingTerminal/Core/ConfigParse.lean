import TradingTerminal.Core.ConfigLines

/-!
# Parsing a rendered document

Before every line the sections open below its indent are the ancestors of its entry, outermost first
(`Inside`). One lemma for each kind of line says what `parseLine` does to this invariant and to the
configuration.
-/

namespace TradingTerminal

open Lib

namespace Config

/-! ## Open sections -/

/-- Sections by their indent, outermost first. -/
abbrev Ancestors := List (Sigma fun _ : Nat => Text)

def Ancestors.names (outer : Ancestors) : List Text := outer.map (·.2)

/-- The sections open below `indent` are `outer`. -/
structure Inside (sections : UMap Nat Text) (indent : Nat) (outer : Ancestors) : Prop where
  perm : (sections.entries.filter (·.1 < indent)).Perm outer
  sorted : outer.Pairwise (·.1 < ·.1)
  named : ∀ e ∈ outer, e.2 ≠ []

namespace Inside

variable {sections : UMap Nat Text} {indent inner : Nat} {outer : Ancestors}

theorem lt (h : Inside sections indent outer) {e : Sigma fun _ : Nat => Text} (he : e ∈ outer) :
    e.1 < indent := by
  have hmem := (h.perm.mem_iff).2 he
  simpa using (List.mem_filter.1 hmem).2

theorem empty (indent : Nat) : Inside ∅ indent [] :=
  ⟨List.Perm.refl _, List.Pairwise.nil, by simp⟩

/-- The sorted levels below the indent are the ancestors in order. -/
theorem openSections (h : Inside sections indent outer) :
    openSections sections indent = outer.names := by
  unfold Config.openSections Ancestors.names
  congr 1
  have hsort := (List.mergeSort_perm sections.entries fun a b => a.1 ≤ b.1).filter (·.1 < indent)
  refine @List.Perm.eq_of_pairwise _ (fun a b => a.1 ≤ b.1) _ _ ?_ ?_ ?_ (hsort.trans h.perm)
  · intro a b ha hb hab hba
    have ha' := (List.mem_filter.1 (hsort.mem_iff.1 ha)).1
    have hb' := (List.mem_filter.1 (h.perm.mem_iff.2 hb)).1
    exact sections.nodupKeys.eq_of_fst_eq ha' hb' (le_antisymm hab hba)
  · refine List.Pairwise.filter _ ?_
    have hpairwise := @List.pairwise_mergeSort (Sigma fun _ : Nat => Text)
      (fun a b => decide (a.1 ≤ b.1)) (by simp; omega) (by simp; omega) sections.entries
    exact hpairwise.imp fun hab => by simpa using hab
  · exact h.sorted.imp fun hab => hab.le

/-- Closing sections at the indent or deeper leaves the ancestors open. -/
theorem close (h : Inside sections indent outer) (hle : indent ≤ inner) :
    Inside (closeSections sections inner) indent outer := by
  refine ⟨?_, h.sorted, h.named⟩
  have hfilter : (closeSections sections inner).entries.filter (·.1 < indent) =
      sections.entries.filter (·.1 < indent) := by
    rw [closeSections, List.filter_filter]
    congr 1
    funext e
    simp only [Bool.and_eq_left_iff_imp, decide_eq_true_eq]
    omega
  rw [hfilter]
  exact h.perm

/-- A header opens its section for what is indented deeper. -/
theorem header (h : Inside sections indent outer) {key : Text} (hkey : key ≠ [])
    (deeper : indent < inner) :
    Inside ((closeSections sections indent).insert indent key) inner (outer ++ [⟨indent, key⟩]) := by
  have hlt : ∀ e ∈ (closeSections sections indent).entries, e.1 < indent := by
    intro e he
    simpa using (List.mem_filter.1 he).2
  have hnew : indent ∉ (closeSections sections indent).entries.keys := by
    rw [List.notMem_keys]
    intro name hmem
    exact lt_irrefl indent (hlt _ hmem)
  refine ⟨?_, ?_, ?_⟩
  · rw [AList.entries_insert, List.kerase_of_notMem_keys hnew, List.filter_eq_self.2]
    · exact (List.Perm.cons _ h.perm).trans (List.perm_append_singleton _ outer).symm
    · intro e he
      rcases List.mem_cons.1 he with rfl | he
      · simpa using deeper
      · simpa using (hlt e he).trans deeper
  · refine List.pairwise_append.2 ⟨h.sorted, List.pairwise_singleton _ _, ?_⟩
    intro a ha b hb
    rw [List.mem_singleton.1 hb]
    exact h.lt ha
  · intro e he
    rcases List.mem_append.1 he with he | he
    · exact h.named e he
    · rw [List.mem_singleton.1 he]
      exact hkey

/-- Behind a section its own ancestors are open again. -/
theorem leave {key : Text} (h : Inside sections inner (outer ++ [⟨indent, key⟩]))
    (deeper : indent < inner) (houter : ∀ e ∈ outer, e.1 < indent) :
    Inside sections indent outer := by
  refine ⟨?_, (List.pairwise_append.1 h.sorted).1, fun e he => h.named e (List.mem_append_left _ he)⟩
  have hfilter : (sections.entries.filter (·.1 < inner)).filter (·.1 < indent) =
      sections.entries.filter (·.1 < indent) := by
    rw [List.filter_filter]
    congr 1
    funext e
    simp only [Bool.and_eq_left_iff_imp, decide_eq_true_eq]
    omega
  have hself : outer.filter (·.1 < indent) = outer :=
    List.filter_eq_self.2 fun e he => by simpa using houter e he
  have hperm := h.perm.filter (·.1 < indent)
  rw [hfilter, List.filter_append, hself] at hperm
  simpa using hperm

end Inside

/-! ## Dotted paths -/

theorem dotted_concat {names : List Text} (hne : names ≠ []) (key : Text) :
    dotted (names ++ [key]) = dotted names ++ ['.'] ++ key := by
  induction names with
  | nil => exact absurd rfl hne
  | cons name names ih =>
    cases names with
    | nil => simp [dotted, List.intercalate_cons_cons]
    | cons name' names =>
      have htail := ih (by simp)
      unfold dotted at htail ⊢
      rw [List.cons_append, List.cons_append, List.intercalate_cons_cons, ← List.cons_append, htail,
        List.intercalate_cons_cons]
      simp

theorem joinPath_concat (names : List Text) (key : Text) :
    joinPath (names ++ [key]) =
      (if joinPath names ≠ [] then joinPath names ++ ['.'] else joinPath names) ++ key := by
  rw [joinPath, List.foldl_append, List.foldl_cons, List.foldl_nil, ← joinPath]

/-- The path the parser builds from non-empty names is the dotted one, and not empty. -/
theorem joinPath_eq {names : List Text} (hnames : ∀ name ∈ names, name ≠ []) :
    joinPath names = dotted names ∧ (joinPath names = [] ↔ names = []) := by
  induction names using List.reverseRecOn with
  | nil => exact ⟨rfl, by simp [joinPath]⟩
  | append_singleton names key ih =>
    obtain ⟨heq, hempty⟩ := ih fun name h => hnames name (List.mem_append_left _ h)
    have hkey : key ≠ [] := hnames key (by simp)
    rw [joinPath_concat]
    constructor
    · by_cases hnil : names = []
      · rw [if_neg (not_not.2 (hempty.2 hnil)), hempty.2 hnil, hnil]
        simp [dotted]
      · rw [if_pos (mt hempty.1 hnil), dotted_concat hnil, heq]
    · simp [hkey]

/-- The full key of an entry is its dotted path. -/
theorem Inside.fullKey {sections : UMap Nat Text} {indent : Nat} {outer : Ancestors}
    (h : Inside sections indent outer) (key : Text) :
    (if currentPrefix sections indent = [] then key
      else currentPrefix sections indent ++ ['.'] ++ key) = dotted (outer.names ++ [key]) := by
  have hnames : ∀ name ∈ outer.names, name ≠ [] := by
    intro name hname
    obtain ⟨e, he, rfl⟩ := List.mem_map.1 hname
    exact h.named e he
  obtain ⟨heq, hempty⟩ := joinPath_eq hnames
  rw [currentPrefix, h.openSections]
  by_cases hnil : outer.names = []
  · rw [if_pos (hempty.2 hnil), hnil]
    simp [dotted]
  · rw [if_neg (mt hempty.1 hnil), dotted_concat hnil, heq]

/-! ## One line -/

section Line

variable {st : ParseState} {indent : Nat} {outer : Ancestors} {body key value : Text}

/-- A line with a key is parsed as an entry, after the sections behind it are closed. -/
theorem parseLine_body (st : ParseState) (indent : Nat) (h : IsBody body key value) (hkey : key ≠ [])
    (next : Option RawLine) :
    parseLine st { indent, content := body } next =
      parseEntry { st with sectionAtIndent := closeSections st.sectionAtIndent indent } indent key
        value next := by
  unfold parseLine
  dsimp only
  split
  · exact absurd rfl h.noDash
  · rw [h.keyValue]
    dsimp only
    rw [if_neg hkey]

/-- A scalar is stored under its path. -/
theorem parseLine_scalar (h : Inside st.sectionAtIndent indent outer) (hbody : IsBody body key value)
    (hkey : key ≠ []) (hvalue : Document.IsValue value) (next : Option RawLine) :
    Inside (parseLine st { indent, content := body } next).sectionAtIndent indent outer ∧
      (parseLine st { indent, content := body } next).config = { st.config with
        settings := st.config.settings.insert (dotted (outer.names ++ [key])) value } := by
  have hclose := h.close (le_refl indent)
  rw [parseLine_body st indent hbody hkey]
  unfold parseEntry
  dsimp only
  rw [if_neg hvalue.nonempty, if_neg hvalue.noBracket, hclose.fullKey]
  exact ⟨hclose, rfl⟩

/-- An inline list is stored under its path. -/
theorem parseLine_inline (h : Inside st.sectionAtIndent indent outer)
    (hbody : IsBody body key ('[' :: value)) (hkey : key ≠ []) (next : Option RawLine) :
    Inside (parseLine st { indent, content := body } next).sectionAtIndent indent outer ∧
      (parseLine st { indent, content := body } next).config =
        st.config.setItems (dotted (outer.names ++ [key])) (parseInlineList ('[' :: value)) := by
  have hclose := h.close (le_refl indent)
  rw [parseLine_body st indent hbody hkey]
  unfold parseEntry
  dsimp only
  rw [if_neg (List.cons_ne_nil _ _), List.head?_cons, if_pos rfl, hclose.fullKey]
  exact ⟨hclose, rfl⟩

/-- A header with an entry behind it opens a section. -/
theorem parseLine_section (h : Inside st.sectionAtIndent indent outer) (hbody : IsBody body key [])
    (hkey : key ≠ []) {next : RawLine} (hnext : next.content.head? ≠ some '-') {inner : Nat}
    (deeper : indent < inner) :
    Inside (parseLine st { indent, content := body } (some next)).sectionAtIndent inner
        (outer ++ [⟨indent, key⟩]) ∧
      (parseLine st { indent, content := body } (some next)).config = st.config := by
  rw [parseLine_body st indent hbody hkey]
  unfold parseEntry
  dsimp only
  rw [if_pos rfl, if_neg hnext]
  exact ⟨h.header hkey deeper, rfl⟩

/-- A header with an item behind it makes its path the pending list. -/
theorem parseLine_list (h : Inside st.sectionAtIndent indent outer) (hbody : IsBody body key [])
    (hkey : key ≠ []) {next : RawLine} (hnext : next.content.head? = some '-') :
    let st' := parseLine st { indent, content := body } (some next)
    Inside st'.sectionAtIndent indent outer ∧ st'.config = st.config ∧
      st'.pendingListKey = dotted (outer.names ++ [key]) ∧ st'.pendingListIndent = indent := by
  have hclose := h.close (le_refl indent)
  intro st'
  have hst' : st' = parseEntry { st with
      sectionAtIndent := closeSections st.sectionAtIndent indent } indent key [] (some next) :=
    parseLine_body st indent hbody hkey (some next)
  rw [hst']
  unfold parseEntry
  dsimp only
  rw [if_pos rfl, if_pos hnext, hclose.fullKey]
  exact ⟨hclose, rfl, rfl, rfl⟩

/-- An item goes to the pending list. -/
theorem parseLine_item (h : Inside st.sectionAtIndent indent outer)
    (hpending : st.pendingListIndent = indent) {inner : Nat} (deeper : indent < inner) {item : Text}
    (hitem : Document.IsItem item) (hbody : IsItemLine item body) (next : Option RawLine) :
    let st' := parseLine st { indent := inner, content := body } next
    Inside st'.sectionAtIndent indent outer ∧
      st'.config = st.config.pushItem st.pendingListKey item ∧
      st'.pendingListKey = st.pendingListKey ∧ st'.pendingListIndent = indent := by
  obtain ⟨w, hw, rfl⟩ := hbody
  have hread : stripQuotes (trim isSpace (w ++ item)) = item := by
    rw [trim_left hw hitem.trimmed, stripQuotes_of_notMem hitem.noQuote]
  have hdeep : st.pendingListIndent ≥ 0 ∧ (inner : Int) > st.pendingListIndent := by
    rw [hpending]
    omega
  simp only [parseLine, parseItem, hread]
  rw [if_neg hitem.nonempty, if_pos hdeep]
  exact ⟨h.close deeper.le, rfl, rfl, hpending⟩

end Line

end Config

end TradingTerminal
