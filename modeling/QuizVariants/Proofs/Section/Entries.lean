import QuizVariants.Problem.Source
import QuizVariants.Proofs.Section.Body
import QuizVariants.Proofs.Table.Entries

/-! Entries written and read.
An entry with a plain literal stands on a line of its own that has no comment, and the entries of
a table are read back from their lines.
-/

namespace QuizVariants.Section

open QuizVariants.Literal
open QuizVariants.Text
open QuizVariants.Definition (keySource)

-----------------------------------------------------------------------------------------
-- Source forms are kept whole on their lines
-----------------------------------------------------------------------------------------

/-- The source form of a scalar is intact, unless a text in quotes touches it. -/
theorem intact_spelled {text rest : List Char} (spelled : Spelled text)
    (apart : rest.head? ≠ some '"') (more : Intact rest)
    : Intact (text ++ rest) := by
  rcases spelled with ⟨_, bare⟩ | ⟨content, rfl⟩
  · exact more.behind (fun c member => plain_of_isBare (bare c member))
  · exact .quoted content apart more

/-- The items of a list are intact, since commas keep them apart; by induction on them. -/
theorem intact_joinWith {parts : List (List Char)} (spelled : ∀ part ∈ parts, Spelled part)
    {rest : List Char} (apart : rest.head? ≠ some '"') (more : Intact rest)
    : Intact (joinWith [',', ' '] parts ++ rest) := by
  induction parts with
  | nil => exact more
  | cons part parts ih =>
      obtain ⟨first, others⟩ := List.forall_mem_cons.mp spelled
      cases parts with
      | nil => exact intact_spelled first apart more
      | cons next parts =>
          have split : joinWith [',', ' '] (part :: next :: parts) ++ rest
              = part ++ ',' :: ' ' :: (joinWith [',', ' '] (next :: parts) ++ rest) := by
            simp [joinWith]
          rw [split]
          refine intact_spelled first (by simp) ?_
          exact .plain (by decide) rfl (.plain (by decide) rfl (ih others))

theorem intact_source {literal : Literal} (h : literal.IsPlain)
    : Intact literal.source.toList := by
  rcases isPlain_iff.mp h with scalar | ⟨items, rfl, scalars⟩
  · rw [← List.append_nil literal.source.toList]
    exact intact_spelled (spelled_source scalar) (by simp) .nil
  · have spelled : ∀ part ∈ items.map (fun item => item.source.toList), Spelled part := by
      intro part member
      obtain ⟨item, found, rfl⟩ := List.mem_map.mp member
      exact spelled_source (scalars item found)
    rw [source_list]
    refine .plain (by decide) rfl ?_
    exact intact_joinWith spelled (by decide) (.plain (by decide) rfl .nil)

-----------------------------------------------------------------------------------------
-- Literals that fit a line
-----------------------------------------------------------------------------------------

/-- A text that an entry keeps on its line: it has no newline, neither a comment nor an open string
runs into what follows, and no comma at its end could be taken for one between entries. -/
structure KeepsToLine (text : List Char) : Prop where
  plain : '\n' ∉ text
  kept : Kept text
  whole : valueLines text [] = some (text, [])
  uncut : text.getLast? ≠ some ','

instance (text : List Char) : Decidable (KeepsToLine text) :=
  decidable_of_iff ('\n' ∉ text ∧ scanLine none text = (text, none)
      ∧ valueLines text [] = some (text, []) ∧ text.getLast? ≠ some ',')
    ⟨fun h => ⟨h.1, h.2.1, h.2.2.1, h.2.2.2⟩, fun h => ⟨h.plain, h.kept, h.whole, h.uncut⟩⟩

/-- A text that is complete on its line is so whatever lines follow. -/
theorem KeepsToLine.valueLines_eq {text : List Char} (h : KeepsToLine text)
    (rest : List (List Char))
    : valueLines text rest = some (text, rest) := by
  have whole := h.whole
  unfold valueLines at whole ⊢
  split at whole
  · next mark found =>
    simp only [closeTriple] at whole
    split at whole
    · next closed => cases rest <;> simp only [closeTriple, if_pos closed]
    · cases whole
  · rfl

/-- A literal that is read back from its source form on the line of an entry. -/
structure FitsLine (literal : Literal) : Prop where
  keeps : KeepsToLine literal.source.toList
  trimmed : Trimmed literal.source.toList
  read : decodeChars literal.source.toList = literal

theorem tripleMark?_source {literal : Literal} (h : literal.IsPlain)
    : tripleMark? literal.source.toList = none := by
  have absent (mark : Char) (quotes : isBare mark = false) (bracket : mark ≠ '[')
      : after? (triple mark) literal.source.toList = none := by
    rcases isPlain_iff.mp h with scalar | ⟨items, rfl, _⟩
    · rcases spelled_source scalar with ⟨_, bare⟩ | ⟨content, same⟩
      · refine after?_eq_none (fun first => ?_) _
        exact ne_of_kind (bare mark (List.mem_of_head? first)) quotes rfl
      · rw [same]
        exact after?_triple_quote mark content
    · rw [source_list]
      refine after?_eq_none (fun first => ?_) _
      exact bracket (Option.some.inj first).symm
  simp [tripleMark?, absent '"' rfl (by decide), absent '\'' rfl (by decide)]

theorem getLast?_source_ne {literal : Literal} (h : literal.IsPlain)
    : literal.source.toList.getLast? ≠ some ',' := by
  rcases isPlain_iff.mp h with scalar | ⟨items, rfl, _⟩
  · rcases spelled_source scalar with ⟨_, bare⟩ | ⟨content, same⟩
    · intro comma
      exact absurd (bare ',' (List.mem_of_getLast? comma)) (by decide)
    · rw [same, Literal.quote, List.getLast?_concat]
      decide
  · rw [source_list, List.getLast?_concat]
    decide

/-- Plain literals keep to their lines, whatever their strings hold. -/
theorem keepsToLine_source {literal : Literal} (h : literal.IsPlain)
    : KeepsToLine literal.source.toList := by
  refine ⟨(shown_source h).plain, (intact_source h).kept, ?_, getLast?_source_ne h⟩
  rw [valueLines, tripleMark?_source h]

theorem fitsLine_of_isPlain {literal : Literal} (h : literal.IsPlain) : FitsLine literal :=
  ⟨keepsToLine_source h, (shown_source h).trimmed, decodeChars_source h⟩

-----------------------------------------------------------------------------------------
-- The line of an entry
-----------------------------------------------------------------------------------------

/-- The line of an entry. -/
def entryLine (entry : String × Literal) : List Char :=
  (keySource entry.1).toList ++ ':' :: ' ' :: entry.2.source.toList

theorem spelled_keySource (key : String) : Spelled (keySource key).toList := by
  unfold keySource
  split
  · next named =>
    refine Or.inl ⟨?_, fun c member => ?_⟩
    · intro none
      rw [none] at named
      exact nomatch named
    · exact isBare_of_continuesName (continuesName_of_isName named c member)
  · exact Or.inr ⟨key.toList, String.toList_ofList⟩

/-- The line of an entry starts with its key: with a bare character or a quote. -/
theorem head?_entryLine_ne (entry : String × Literal) {c : Char} (bare : isBare c = false)
    (quote : c ≠ '"')
    : (entryLine entry).head? ≠ some c := by
  have key := spelled_keySource entry.1
  rw [entryLine, List.head?_append_of_ne_nil _ key.shown.shows]
  rcases key with ⟨_, all⟩ | ⟨content, same⟩
  · exact fun first => ne_of_kind (all c (List.mem_of_head? first)) bare rfl
  · rw [same]
    exact fun first => quote (Option.some.inj first).symm

/-- The line of an entry starts with a character that shows. -/
theorem isBlank_of_head?_entryLine (entry : String × Literal)
    : ∀ c, (entryLine entry).head? = some c → isBlank c = false := by
  have key := (spelled_keySource entry.1).shown
  rw [entryLine, List.head?_append_of_ne_nil _ key.shows]
  exact (trimmed_iff.mp key.trimmed).1

theorem allBlank_entryLine (entry : String × Literal) : allBlank (entryLine entry) = false := by
  have first := isBlank_of_head?_entryLine entry
  cases line : entryLine entry with
  | nil => exact absurd line (List.append_ne_nil_of_right_ne_nil _ (List.cons_ne_nil _ _))
  | cons c rest =>
      rw [line] at first
      rw [allBlank, List.all_cons, first c rfl, Bool.false_and]

/-- The line of an entry is kept if its literal is. -/
theorem kept_entryLine {entry : String × Literal} (h : Kept entry.2.source.toList)
    : Kept (entryLine entry) := by
  have key : Intact ((keySource entry.1).toList ++ []) :=
    intact_spelled (spelled_keySource entry.1) nofun .nil
  rw [List.append_nil] at key
  rw [Kept, entryLine, scanLine_append_of_intact key (by simp), scanLine_plain (by decide) rfl,
    scanLine_plain (by decide) rfl, show scanLine none _ = _ from h]
  rfl

theorem newline_not_mem_entryLine {entry : String × Literal} (h : '\n' ∉ entry.2.source.toList)
    : '\n' ∉ entryLine entry := by
  simp only [entryLine, List.mem_append, List.mem_cons, not_or]
  exact ⟨(spelled_keySource entry.1).shown.plain, by decide, by decide, h⟩

/-- The line of an entry does not run into its end: the last character is a blank or shows. -/
theorem oneLine_entryLine {entry : String × Literal} (plain : '\n' ∉ entry.2.source.toList)
    (trimmed : Trimmed entry.2.source.toList)
    : OneLine (entryLine entry) := by
  refine ⟨newline_not_mem_entryLine plain, ?_⟩
  have split : entryLine entry
      = ((keySource entry.1).toList ++ [':']) ++ ' ' :: entry.2.source.toList := by
    simp [entryLine]
  rw [split, List.getLast?_append_of_ne_nil _ (List.cons_ne_nil _ _)]
  cases text : entry.2.source.toList with
  | nil => decide
  | cons c rest =>
      rw [List.getLast?_cons_cons, ← text]
      exact (trimmed.oneLine plain).2

/-- The line of an entry as it stands in a body. -/
def bodyLine (entry : String × Literal) : List Char :=
  trimRight (entryLine entry)

/-- Only the blank in front of an empty text is trimmed. -/
theorem bodyLine_eq (entry : String × Literal)
    : bodyLine entry
        = (keySource entry.1).toList ++ ':' :: trimRight (' ' :: entry.2.source.toList) :=
  trimRight_append_cons _ (by decide) _

theorem head?_bodyLine (entry : String × Literal)
    : (bodyLine entry).head? = (entryLine entry).head? := by
  have key := (spelled_keySource entry.1).shown.shows
  rw [bodyLine_eq, entryLine, List.head?_append_of_ne_nil _ key, List.head?_append_of_ne_nil _ key]

theorem shown_bodyLine {entry : String × Literal} (plain : '\n' ∉ entry.2.source.toList)
    : Shown (bodyLine entry) := by
  refine ⟨trimmed_iff.mpr ⟨?_, ?_⟩, ?_, ?_⟩
  · rw [head?_bodyLine]
    exact isBlank_of_head?_entryLine entry
  · exact fun c => isBlank_of_getLast?_trimRight
  · rw [bodyLine_eq]
    exact List.append_ne_nil_of_right_ne_nil _ (List.cons_ne_nil _ _)
  · intro newline
    obtain ⟨blanks, split, _⟩ := exists_blanks (entryLine entry)
    refine newline_not_mem_entryLine plain ?_
    rw [split]
    exact List.mem_append_left _ newline

-----------------------------------------------------------------------------------------
-- An entry is found on its line
-----------------------------------------------------------------------------------------

/-- The key of an entry is found in front of a colon, as an identifier or in quotes. -/
theorem key?_keySource (key : String) (rest : List Char)
    : key? ((keySource key).toList ++ ':' :: rest) = some (key.toList, rest) := by
  have colon : after? [':'] (trimLeft (':' :: rest)) = some rest := by
    rw [trimLeft_cons_of_not_isBlank (by decide), after?_singleton]
  -- A key that is no identifier stands in quotes, which no identifier starts with.
  by_cases named : isName key.toList = true
  · have read : name? (key.toList ++ ':' :: rest) = some (key.toList, ':' :: rest) :=
      name?_append named (stops_cons.mpr rfl)
    simp [key?, keySource, named, read, colon]
  · have read : quotedKey? (Literal.quote key.toList ++ ':' :: rest) = some (key.toList, rest) := by
      rw [quote_eq, List.cons_append]
      simp [quotedKey?, isQuote, unquote_quoteTail, colon]
    have unnamed : name? (Literal.quote key.toList ++ ':' :: rest) = none := rfl
    simp [key?, keySource, named, read, unnamed]

-----------------------------------------------------------------------------------------
-- The entries of a body
-----------------------------------------------------------------------------------------

/-- An entry is read before the lines that its value leaves. -/
theorem entriesOf_cons {line key text value : List Char} {rest later : List (List Char)}
    (found : key? line = some (key, text))
    (read : valueLines (trim text) rest = some (value, later))
    : entriesOf (line :: rest)
        = (entriesOf later).map ((.ofList key, decodeChars (dropComma value)) :: ·) := by
  rw [entriesOf]
  simp only [found]
  split
  · next missing => cases missing.symm.trans read
  · next value' later' read' =>
    obtain ⟨rfl, rfl⟩ := Prod.mk.inj (Option.some.inj (read'.symm.trans read))
    rfl

/-- What holds without lines, and of a line with a key if it holds of the lines that the value of the
entry leaves, holds of all lines and their entries; by the recursion over the lines. -/
theorem entriesOf_induction {motive : List (List Char) → List (String × Literal) → Prop}
    (nil : motive [] [])
    (cons : ∀ {line key text value : List Char} {rest later : List (List Char)}
      {entries : List (String × Literal)},
      key? line = some (key, text) → valueLines (trim text) rest = some (value, later) →
      motive later entries →
      motive (line :: rest) ((.ofList key, decodeChars (dropComma value)) :: entries))
    {ls : List (List Char)} {entries : List (String × Literal)} (h : entriesOf ls = some entries)
    : motive ls entries := by
  induction ls using entriesOf.induct generalizing entries with
  | case1 =>
      rw [entriesOf] at h
      obtain rfl := Option.some.inj h
      exact nil
  | case2 line rest unkeyed =>
      rw [entriesOf, unkeyed] at h
      cases h
  | case3 line rest key text keyed unclosed =>
      rw [entriesOf] at h
      simp only [keyed] at h
      split at h
      · cases h
      · next found => cases unclosed.symm.trans found
  | case4 line rest key text keyed value later closed _ ih =>
      rw [entriesOf_cons keyed closed] at h
      obtain ⟨others, read, rfl⟩ := Option.map_eq_some_iff.mp h
      exact cons keyed closed (ih read)

/-- Entries with literals that fit their lines are read back from them, by induction on the
entries. -/
theorem entriesOf_bodyLines {entries : List (String × Literal)}
    (h : ∀ entry ∈ entries, FitsLine entry.2)
    : entriesOf (entries.map bodyLine) = some entries := by
  induction entries with
  | nil => rw [List.map_nil, entriesOf]
  | cons entry rest ih =>
      obtain ⟨fits, others⟩ := List.forall_mem_cons.mp h
      have trimmed : trim (trimRight (' ' :: entry.2.source.toList)) = entry.2.source.toList :=
        fits.trimmed.trim_trimRight_cons (by decide)
      have value : valueLines (trim (trimRight (' ' :: entry.2.source.toList)))
            (rest.map bodyLine)
          = some (entry.2.source.toList, rest.map bodyLine) := by
        rw [trimmed]
        exact fits.keeps.valueLines_eq _
      have uncut : dropComma entry.2.source.toList = entry.2.source.toList := by
        rw [dropComma, before?_eq_none fits.keeps.uncut]
      rw [List.map_cons, bodyLine_eq, entriesOf_cons (key?_keySource _ _) value, ih others, uncut,
        fits.read, String.ofList_toList]
      rfl

/-- The entries of a section are read back from its body. -/
theorem mapping?_layOut {table : Table Literal} (h : ∀ entry ∈ table.entries, FitsLine entry.2)
    : mapping? (layOut (table.entries.map bodyLine)) = some table := by
  have shown : ∀ line ∈ table.entries.map bodyLine, Shown line := by
    intro line member
    obtain ⟨entry, found, rfl⟩ := List.mem_map.mp member
    exact shown_bodyLine (h entry found).keeps.plain
  have unbraced : insideBraces (joinWith ['\n'] (table.entries.map bodyLine))
      = joinWith ['\n'] (table.entries.map bodyLine) := by
    rw [insideBraces, after?_eq_none]
    · rfl
    · cases entries : table.entries with
      | nil => exact nofun
      | cons entry rest =>
          have shows := (shown_bodyLine (h entry (by simp [entries])).keeps.plain).shows
          rw [List.map_cons, head?_joinWith shows, head?_bodyLine]
          exact head?_entryLine_ne entry rfl (by decide)
  rw [mapping?, trim_layOut shown, unbraced, shownLines_joinWith shown, entriesOf_bodyLines h,
    Option.map_some, Table.ofList_entries]

end QuizVariants.Section
