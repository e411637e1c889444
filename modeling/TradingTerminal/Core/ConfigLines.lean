import TradingTerminal.Core.ConfigDocument

/-!
# Reading the lines of a configuration file

What the helpers of the parser make of a rendered line: `readLine` finds the indent and the body
(`readLine_line`) and drops the lines that carry nothing (`readLine_filler`); the bodies of headers
and pairs are cut into a key and a value (`isBody_header`, `isBody_pair`), and the items of an inline
list are found between its brackets (`isText_inline`).
-/

namespace TradingTerminal

open Lib

namespace Config

/-! ## Comments and line ends -/

/-- The scan for a comment passes over the text and is outside quotes behind it. -/
def Plain (s : Text) : Prop :=
  ∀ t, beforeComment false (s ++ t) = (beforeComment false t).map (s ++ ·)

theorem Plain.append {s t : Text} (hs : Plain s) (ht : Plain t) : Plain (s ++ t) := by
  intro u
  rw [List.append_assoc, hs, ht, Option.map_map]
  congr 1
  funext v
  exact (List.append_assoc s t v).symm

theorem plain_of_notMem {s : Text} (hash : '#' ∉ s) (quote : '"' ∉ s) : Plain s := by
  intro t
  induction s with
  | nil => simp
  | cons c s ih =>
    have hc : c ≠ '#' := fun h => hash (h ▸ List.mem_cons_self)
    have hq : c ≠ '"' := fun h => quote (h ▸ List.mem_cons_self)
    rw [List.cons_append, beforeComment, if_neg hq,
      ih (fun h => hash (List.mem_cons_of_mem c h)) (fun h => quote (List.mem_cons_of_mem c h))]
    simp [hc, Option.map_map, Function.comp_def]

theorem beforeComment_inQuote {s : Text} (quote : '"' ∉ s) (t : Text) :
    beforeComment true (s ++ '"' :: t) = (beforeComment false t).map (s ++ '"' :: ·) := by
  induction s with
  | nil => simp [beforeComment]
  | cons c s ih =>
    have hq : c ≠ '"' := fun h => quote (h ▸ List.mem_cons_self)
    rw [List.cons_append, beforeComment, if_neg hq, ih fun h => quote (List.mem_cons_of_mem c h)]
    simp [Option.map_map, Function.comp_def]

/-- A quoted text may hold a `#`. -/
theorem plain_quoted {s : Text} (quote : '"' ∉ s) : Plain ('"' :: (s ++ ['"'])) := by
  intro t
  rw [List.cons_append, List.append_assoc, List.cons_append, List.nil_append, beforeComment]
  simp only [if_true, Bool.not_false]
  rw [beforeComment_inQuote quote]
  simp [Option.map_map, Function.comp_def]

theorem Blank.plain {w : Text} (hw : Blank isSpace w) : Plain w :=
  plain_of_notMem (hw.notMem rfl) (hw.notMem rfl)

/-- A tail is space, up to its comment if it has one. -/
theorem beforeComment_tail {tail : Text} (h : Tail tail) :
    (beforeComment false tail = none ∧ Blank isSpace tail) ∨
      ∃ w, beforeComment false tail = some w ∧ Blank isSpace w := by
  cases h with
  | blank hw =>
    have hplain := Blank.plain hw []
    rw [List.append_nil] at hplain
    exact Or.inl ⟨hplain, hw⟩
  | @comment w hw comment =>
    refine Or.inr ⟨w, ?_, hw⟩
    rw [Blank.plain hw]
    simp [beforeComment]

/-- What is left of a line when the comment and the space around it are gone. -/
theorem trim_stripComment {margin body tail : Text} (hmargin : Blank isSpace margin)
    (hplain : Plain body) (hbody : Trimmed isSpace body) (htail : Tail tail) :
    trim isSpace (stripComment (margin ++ (body ++ tail))) = body := by
  have hscan : beforeComment false (margin ++ (body ++ tail)) =
      (beforeComment false tail).map fun t => margin ++ (body ++ t) := by
    rw [Blank.plain hmargin, hplain, Option.map_map]
    rfl
  unfold stripComment
  rcases beforeComment_tail htail with ⟨hnone, hw⟩ | ⟨w, hsome, hw⟩
  · rw [hscan, hnone]
    exact trim_surround hmargin hbody hw
  · rw [hscan, hsome]
    simp only [Option.map_some]
    rw [trim_surround hmargin hbody hw, trim_of_trimmed hbody]

/-- A carriage return at the end of a line belongs to its tail. -/
theorem dropReturn_tail {s tail : Text} (hs : ∀ c ∈ s.getLast?, c ≠ '\r') (h : Tail tail) :
    ∃ tail', Tail tail' ∧
      (if (s ++ tail).getLast? = some '\r' then (s ++ tail).dropLast else s ++ tail) = s ++ tail' := by
  split
  · next hlast =>
    have hne : tail ≠ [] := by
      rintro rfl
      rw [List.append_nil] at hlast
      exact hs _ hlast rfl
    refine ⟨tail.dropLast, ?_, List.dropLast_append_of_ne_nil hne⟩
    cases h with
    | blank hw => exact .blank fun c hc => hw c (List.mem_of_mem_dropLast hc)
    | @comment w hw comment =>
      cases comment with
      | nil => simp at hlast
      | cons c comment =>
        rw [List.dropLast_append_of_ne_nil (by simp), List.dropLast_cons_of_ne_nil (by simp)]
        exact .comment hw _
  · exact ⟨tail, h, rfl⟩

theorem Margin.blank {margin : Text} (h : ∀ c ∈ margin, c = ' ' ∨ c = '\t') :
    Blank isSpace margin := by
  intro c hc
  rcases h c hc with rfl | rfl
  · rfl
  · rfl

/-- The indent of a line is that of its margin. -/
theorem indentOf_append {margin : Text} (h : ∀ c ∈ margin, c = ' ' ∨ c = '\t') {s : Text}
    (hs : ∀ c ∈ s.head?, isSpace c = false) : indentOf (margin ++ s) = indentOf margin := by
  induction margin with
  | nil =>
    cases s with
    | nil => rfl
    | cons c s =>
      have hc := hs c (by simp)
      have hspace : c ≠ ' ' := by rintro rfl; cases hc
      have htab : c ≠ '\t' := by rintro rfl; cases hc
      simp [indentOf, hspace, htab]
  | cons c margin ih =>
    have hrest := ih fun d hd => h d (List.mem_cons_of_mem c hd)
    rcases h c List.mem_cons_self with rfl | rfl
    · rw [List.cons_append, indentOf, indentOf, hrest]
    · rw [List.cons_append, indentOf, indentOf, hrest]

/-- A rendered line is read as its indent and its body. -/
theorem readLine_line {indent : Nat} {body line : Text} (h : Line indent body line)
    (hplain : Plain body) (hbody : Trimmed isSpace body) (hne : body ≠ []) :
    readLine line = some { indent, content := body } := by
  obtain ⟨margin, tail, rfl, hmargin, rfl, htail⟩ := h.parts
  have hlast : ∀ c ∈ (margin ++ body).getLast?, c ≠ '\r' := by
    rintro c hc rfl
    rw [List.getLast?_append_of_ne_nil _ hne] at hc
    have hspace := hbody.2 _ hc
    cases hspace
  obtain ⟨tail', htail', hdrop⟩ := dropReturn_tail hlast htail
  rw [List.append_assoc, List.append_assoc] at hdrop
  unfold readLine
  simp only [hdrop]
  rw [trim_stripComment (Margin.blank hmargin) hplain hbody htail', if_neg hne,
    indentOf_append hmargin]
  intro c hc
  rw [List.head?_append_of_ne_nil _ hne] at hc
  exact hbody.1 c hc

theorem readLine_filler {line : Text} (h : Filler line) : readLine line = none := by
  obtain ⟨tail, htail, hdrop⟩ := dropReturn_tail (s := []) (by simp) h
  rw [List.nil_append, List.nil_append] at hdrop
  have hblank : Blank isSpace [] := by simp [Blank]
  have hplain : Plain [] := fun t => by simp
  have htrim := trim_stripComment hblank hplain ⟨by simp, by simp⟩ htail
  unfold readLine
  simp only [hdrop]
  rw [List.nil_append, List.nil_append] at htrim
  rw [if_pos htrim]

/-! ## The bodies of lines -/

theorem trimmed_singleton {c : Char} (h : isSpace c = false) : Trimmed isSpace [c] := by
  simp [Trimmed, h]

/-- A line is cut at its first colon. -/
theorem keyValue_colon {s : Text} (hs : ':' ∉ s) (t : Text) :
    keyValue (s ++ ':' :: t) =
      some (trim isSpace s, stripQuotes (trim isSpace (stripComment (trim isSpace t)))) := by
  have hne : s.length ≠ (s ++ ':' :: t).length := by simp
  unfold keyValue
  rw [idxOf_append_delim hs]
  dsimp only
  rw [if_neg hne, List.take_left, List.drop_append, List.drop_of_length_le (Nat.le_succ _)]
  simp

/-- A plain, trimmed text has nothing left to strip. -/
theorem stripComment_plain {s : Text} (h : Plain s) : stripComment s = s := by
  have hnone := h []
  rw [List.append_nil] at hnone
  rw [stripComment, hnone]
  rfl

theorem stripQuotes_of_notMem {s : Text} (h : '"' ∉ s) : stripQuotes s = s := by
  unfold stripQuotes
  rw [if_neg]
  rintro ⟨-, hhead, -⟩
  exact h (List.mem_of_mem_head? hhead)

theorem stripQuotes_quoted (s : Text) : stripQuotes ('"' :: (s ++ ['"'])) = s := by
  have hlast : ('"' :: (s ++ ['"'])).getLast? = some '"' := by
    rw [← List.cons_append, List.getLast?_concat]
  unfold stripQuotes
  rw [if_pos ⟨by simp, rfl, hlast⟩]
  simp

/-- The text of a pair: nothing to strip from it but quotes. -/
structure IsText (text value : Text) : Prop where
  nonempty : text ≠ []
  plain : Plain text
  trimmed : Trimmed isSpace text
  unquoted : stripQuotes text = value

theorem isText_value {value text : Text} (hvalue : Document.IsValue value)
    (h : WritesValue value text) : IsText text value := by
  cases h with
  | bare hash trimmed =>
    exact ⟨hvalue.nonempty, plain_of_notMem hash hvalue.noQuote, trimmed,
      stripQuotes_of_notMem hvalue.noQuote⟩
  | quoted =>
    have hquote : Trimmed isSpace ['"'] := trimmed_singleton rfl
    exact ⟨by simp, plain_quoted hvalue.noQuote, hquote.of_ends (by simp) hquote (by simp) value,
      stripQuotes_quoted value⟩

/-- The body of a line with a key, as the parser sees it. -/
structure IsBody (body key value : Text) : Prop where
  nonempty : body ≠ []
  plain : Plain body
  trimmed : Trimmed isSpace body
  noDash : body.head? ≠ some '-'
  keyValue : keyValue body = some (key, value)

theorem isBody_pair {key text value body : Text} (hkey : Document.IsKey key)
    (htext : IsText text value) (h : IsPair key text body) : IsBody body key value := by
  obtain ⟨w, hw, v, hv, rfl⟩ := h
  have hcolon : ':' ∉ key ++ w := by
    rw [List.mem_append, not_or]
    exact ⟨hkey.noColon, hw.notMem rfl⟩
  refine ⟨by simp [hkey.nonempty], ?_, ?_, ?_, ?_⟩
  · have hmiddle : Plain (':' :: v) := by
      refine plain_of_notMem ?_ ?_
      · simp [hv.notMem (c := '#') rfl]
      · simp [hv.notMem (c := '"') rfl]
    have hplain := (plain_of_notMem hkey.noHash hkey.noQuote).append
      ((Blank.plain hw).append (hmiddle.append htext.plain))
    simpa using hplain
  · have htrim := hkey.trimmed.of_ends hkey.nonempty htext.trimmed htext.nonempty (w ++ ':' :: v)
    simpa using htrim
  · rw [List.head?_append_of_ne_nil _ hkey.nonempty]
    exact hkey.noDash
  · rw [← List.append_assoc, keyValue_colon hcolon, trim_right hkey.trimmed hw,
      trim_left hv htext.trimmed, stripComment_plain htext.plain, trim_of_trimmed htext.trimmed,
      htext.unquoted]

theorem isBody_header {key body : Text} (hkey : Document.IsKey key) (h : IsHeader key body) :
    IsBody body key [] := by
  obtain ⟨w, hw, rfl⟩ := h
  have hcolon : ':' ∉ key ++ w := by
    rw [List.mem_append, not_or]
    exact ⟨hkey.noColon, hw.notMem rfl⟩
  refine ⟨by simp, ?_, ?_, ?_, ?_⟩
  · exact (plain_of_notMem hkey.noHash hkey.noQuote).append
      ((Blank.plain hw).append (plain_of_notMem (by decide) (by decide)))
  · exact hkey.trimmed.of_ends hkey.nonempty (trimmed_singleton rfl) (by simp) w
  · rw [List.head?_append_of_ne_nil _ hkey.nonempty]
    exact hkey.noDash
  · rw [← List.append_assoc, keyValue_colon hcolon, trim_right hkey.trimmed hw]
    rfl

/-! ## Inline lists -/

/-- The text between the brackets holds no letter that no item and no separator holds. -/
theorem notMem_writesItems {c : Char} (hspace : isSpace c = false) (hcomma : c ≠ ',')
    {items : List Text} {inner : Text} (h : WritesItems items inner)
    (hitems : ∀ item ∈ items, c ∉ item) : c ∉ inner := by
  induction h with
  | nil hw => exact hw.notMem hspace
  | last item hw hv =>
    simp [hw.notMem hspace, hv.notMem hspace, hitems item (by simp)]
  | cons item hw hv hne h ih =>
    have hrest := ih fun x hx => hitems x (List.mem_cons_of_mem item hx)
    simp [hw.notMem hspace, hv.notMem hspace, hitems item (by simp), hcomma, hrest]

def readItem (piece : Text) : Text := trim isSpace (stripQuotes (trim isSpace piece))

theorem readItem_surround {w item v : Text} (hw : Blank isSpace w) (hitem : Document.IsItem item)
    (hv : Blank isSpace v) : readItem (w ++ (item ++ v)) = item := by
  rw [readItem, trim_surround hw hitem.trimmed hv, stripQuotes_of_notMem hitem.noQuote,
    trim_of_trimmed hitem.trimmed]

theorem notMem_piece {w item v : Text} (hw : Blank isSpace w) (hitem : Document.IsItem item)
    (hv : Blank isSpace v) : ',' ∉ w ++ (item ++ v) := by
  simp [hw.notMem (c := ',') rfl, hv.notMem (c := ',') rfl, hitem.noComma]

/-- The pieces between the commas, read back. -/
theorem readItems_writesItems {items : List Text} {inner : Text} (h : WritesItems items inner)
    (hitems : ∀ item ∈ items, Document.IsItem item) :
    ((getlines ',' inner).map readItem).filter (· ≠ []) = items := by
  induction h with
  | @nil w hw =>
    by_cases hne : w = []
    · rw [hne]
      rfl
    · have hread : readItem w = [] := by
        rw [readItem, trim_blank hw]
        rfl
      rw [getlines_of_notMem (hw.notMem rfl) hne]
      simp [hread]
  | last item hw hv =>
    have hitem := hitems item (by simp)
    rw [getlines_of_notMem (notMem_piece hw hitem hv) (by simp [hitem.nonempty])]
    simp [readItem_surround hw hitem hv, hitem.nonempty]
  | @cons w v inner items item hw hv hne h ih =>
    have hitem := hitems item (by simp)
    have hcut : w ++ (item ++ (v ++ ',' :: inner)) = (w ++ (item ++ v)) ++ ',' :: inner := by simp
    rw [hcut, getlines_append_delim (notMem_piece hw hitem hv), List.map_cons,
      readItem_surround hw hitem hv, List.filter_cons_of_pos (by simp [hitem.nonempty]),
      ih fun x hx => hitems x (List.mem_cons_of_mem item hx)]

/-- The text of an inline list reads as itself, and its items are found between the brackets. -/
theorem isText_inline {items : List Text} {inner : Text} (h : WritesItems items inner)
    (hitems : ∀ item ∈ items, Document.IsItem item) :
    IsText ('[' :: (inner ++ [']'])) ('[' :: (inner ++ [']'])) ∧
      parseInlineList ('[' :: (inner ++ [']'])) = items := by
  have hash : '#' ∉ inner :=
    notMem_writesItems rfl (by decide) h fun x hx => (hitems x hx).noHash
  have hquote : '"' ∉ inner :=
    notMem_writesItems rfl (by decide) h fun x hx => (hitems x hx).noQuote
  have hbracket : ']' ∉ '[' :: inner := by
    simp [notMem_writesItems (c := ']') rfl (by decide) h fun x hx => (hitems x hx).noBracket]
  constructor
  · exact ⟨by simp, plain_of_notMem (by simp [hash]) (by simp [hquote]),
      (trimmed_singleton rfl).of_ends (by simp) (trimmed_singleton rfl) (by simp) inner,
      stripQuotes_of_notMem (by simp [hquote])⟩
  · have hstop : ('[' :: (inner ++ [']'])).idxOf ']' = inner.length + 1 :=
      idxOf_append_delim (s := '[' :: inner) hbracket []
    unfold parseInlineList
    simp only [hstop, List.idxOf_cons_self]
    rw [if_neg (by simp)]
    simp only [List.drop_succ_cons, List.drop_zero, Nat.sub_zero, Nat.add_sub_cancel, List.take_left]
    exact readItems_writesItems h hitems

end Config

end TradingTerminal
