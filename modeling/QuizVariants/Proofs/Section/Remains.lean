import QuizVariants.Proofs.Section.Strings

/-! What remains of the lines of a section.
Of a line in a section of literals there remains what stands in front of its comment, and the blanks
around it do not count. The entries are read from what remains, between braces or without them.
-/

namespace QuizVariants.Section

open QuizVariants.Text

/-- A line of which some text remains: without its comment it is this text between blanks, and no
string is open behind it. -/
inductive Remains (core : List Char) : List Char → Prop where
  | intro {indent margin comment : List Char} (indented : Blanks indent) (spaced : Blanks margin)
      (commented : IsComment comment)
      (scanned : scanLine none (indent ++ (core ++ (margin ++ comment)))
        = (indent ++ (core ++ margin), none))
      : Remains core (indent ++ (core ++ (margin ++ comment)))

/-- Lines that show something. -/
def showing (ls : List (List Char)) : List (List Char) :=
  ls.filter (fun line => !line.isEmpty)

theorem showing_cons {line : List Char} (shows : line ≠ []) (rest : List (List Char))
    : showing (line :: rest) = line :: showing rest :=
  List.filter_cons_of_pos (by simpa using shows)

-----------------------------------------------------------------------------------------
-- Indented lines
-----------------------------------------------------------------------------------------

/-- A line in two parts: its indentation and the text that it shows. -/
structure Indented (line : List Char × List Char) : Prop where
  blank : Blanks line.1
  plain : '\n' ∉ line.1
  shown : Shown line.2

/-- A line with its indentation. -/
def indentedLine (line : List Char × List Char) : List Char :=
  line.1 ++ line.2

theorem Indented.trim_eq {line : List Char × List Char} (h : Indented line)
    : trim (indentedLine line) = line.2 := by
  have trimmed := trim_between_blanks h.shown.trimmed h.blank (List.forall_mem_nil _)
  rwa [List.append_nil] at trimmed

/-- The end of an indented line shows. -/
theorem Indented.trimRight_eq {line : List Char × List Char} (h : Indented line)
    : trimRight (indentedLine line) = indentedLine line := by
  refine trimRight_eq_self_iff.mpr (fun c last => ?_)
  rw [indentedLine, List.getLast?_append_of_ne_nil _ h.shown.shows] at last
  exact (trimmed_iff.mp h.shown.trimmed).2 c last

theorem Indented.newline {line : List Char × List Char} (h : Indented line)
    : '\n' ∉ indentedLine line := by
  rw [indentedLine, List.mem_append, not_or]
  exact ⟨h.plain, h.shown.plain⟩

theorem Indented.oneLine {line : List Char × List Char} (h : Indented line)
    : OneLine (indentedLine line) := by
  rw [← h.trimRight_eq]
  exact oneLine_trimRight h.newline

theorem Indented.shows {line : List Char × List Char} (h : Indented line)
    : allBlank (indentedLine line) = false := by
  have shown := h.shown.trimmed.allBlank_eq h.shown.shows
  rw [allBlank] at shown ⊢
  rw [indentedLine, List.all_append, shown, Bool.and_false]

theorem map_trim_indentedLine {ls : List (List Char × List Char)} (h : ∀ line ∈ ls, Indented line)
    : (ls.map indentedLine).map trim = ls.map Prod.snd := by
  rw [List.map_map]
  exact List.map_congr_left (fun line member => (h line member).trim_eq)

/-- Of a line nothing but blanks is kept, or an indented line with blanks behind it. -/
theorem Remains.exists_kept {core line : List Char} (h : Remains core line) (trimmed : Trimmed core)
    (plain : '\n' ∉ line)
    : ∃ kept, scanLine none line = (kept, none)
        ∧ (core = [] ∧ allBlank kept = true
          ∨ ∃ indent, Indented (indent, core) ∧ allBlank kept = false
            ∧ trimRight kept = indentedLine (indent, core)) := by
  obtain @⟨indent, margin, comment, blank, spaced, -, scanned⟩ := h
  refine ⟨_, scanned, ?_⟩
  by_cases empty : core = []
  · refine Or.inl ⟨empty, ?_⟩
    rw [empty]
    exact List.all_eq_true.mpr (List.forall_mem_append.mpr ⟨blank, spaced⟩)
  · simp only [List.mem_append, not_or] at plain
    have inside : Indented (indent, core) := ⟨blank, plain.1, trimmed, empty, plain.2.1⟩
    have shows : (indentedLine (indent, core)).all isBlank = false := inside.shows
    refine Or.inr ⟨indent, inside, ?_, ?_⟩
    · rw [← List.append_assoc, allBlank, List.all_append]
      exact Bool.and_eq_false_imp.mpr (fun all => Bool.noConfusion (all.symm.trans shows))
    · rw [← List.append_assoc, trimRight_append spaced]
      exact inside.trimRight_eq

/-- The text of a section keeps an indented line of each line that shows something; by induction on
the lines. -/
theorem exists_indented {raw : Raw} (literals : holdsLiterals raw.name = true)
    {cores : List (List Char)} (remains : List.Forall₂ Remains cores raw.body)
    (trimmed : ∀ core ∈ cores, Trimmed core) (plain : ∀ line ∈ raw.body, '\n' ∉ line)
    : ∃ ls : List (List Char × List Char), raw.text = layOut (ls.map indentedLine)
        ∧ ls.map Prod.snd = showing cores ∧ ∀ line ∈ ls, Indented line := by
  rw [Raw.text, literals, if_pos rfl]
  generalize raw.body = body at remains plain
  induction remains with
  | nil => exact ⟨[], rfl, rfl, List.forall_mem_nil _⟩
  | @cons core line cores body first _ ih =>
      obtain ⟨own, others⟩ := List.forall_mem_cons.mp trimmed
      obtain ⟨single, more⟩ := List.forall_mem_cons.mp plain
      obtain ⟨ls, text, shown, indented⟩ := ih others more
      obtain ⟨kept, scanned, ⟨rfl, blank⟩ | ⟨indent, inside, shows, ends⟩⟩ :=
        first.exists_kept own single
      · refine ⟨ls, ?_, shown, indented⟩
        simp only [literalLines, scanned]
        rw [List.filter_cons_of_neg (by simp [blank]), text]
      · refine ⟨(indent, core) :: ls, ?_, ?_, List.forall_mem_cons.mpr ⟨inside, indented⟩⟩
        · simp only [literalLines, scanned]
          rw [List.filter_cons_of_pos (by simp [shows]), List.flatMap_cons, text, ends,
            List.map_cons, layOut_cons, List.append_assoc]
          rfl
        · rw [List.map_cons, shown, showing_cons inside.shown.shows]

/-- A line is no header if what remains of it does not start like one. -/
theorem Remains.header?_eq_none {core line : List Char} (h : Remains core line)
    (trimmed : Trimmed core) (other : core.head? ≠ some '<')
    : header? line = none := by
  obtain @⟨indent, margin, comment, blank, spaced, commented, -⟩ := h
  have unopened {blanks text : List Char} (blank : Blanks blanks)
      (first : ∀ c ∈ text.head?, isBlank c = false ∧ c ≠ '<')
      : header? (blanks ++ text) = none := by
    have start : after? ['<', '<'] text = none :=
      after?_eq_none (fun same => (first '<' same).2 rfl) _
    rw [header?, trimLeft_append blank (fun c start => (first c start).1), start]
    rfl
  cases core with
  | nil =>
      rw [List.nil_append, ← List.append_assoc]
      refine unopened (List.forall_mem_append.mpr ⟨blank, spaced⟩) (fun c first => ?_)
      rw [commented c first]
      exact ⟨rfl, by decide⟩
  | cons d core =>
      refine unopened blank (fun c first => ?_)
      obtain rfl := Option.some.inj first
      exact ⟨(trimmed_iff.mp trimmed).1 d rfl, fun same => other (congrArg some same)⟩

theorem header?_of_remains {cores body : List (List Char)} (h : List.Forall₂ Remains cores body)
    (shown : ∀ core ∈ cores, Trimmed core ∧ core.head? ≠ some '<')
    : ∀ line ∈ body, header? line = none := by
  induction h with
  | nil => exact List.forall_mem_nil _
  | cons first _ ih =>
      obtain ⟨⟨trimmed, other⟩, others⟩ := List.forall_mem_cons.mp shown
      exact List.forall_mem_cons.mpr ⟨first.header?_eq_none trimmed other, ih others⟩

-----------------------------------------------------------------------------------------
-- Entries on indented lines
-----------------------------------------------------------------------------------------

/-- Blanks in front of a body do not count. -/
theorem mapping?_append {blanks : List Char} (h : Blanks blanks) (body : List Char)
    : mapping? (blanks ++ body) = mapping? body := by
  have left : trim (blanks ++ body) = trim body := by
    rw [trim, trim, trimLeft, List.dropWhile_append_of_pos h, trimLeft]
  rw [mapping?, mapping?, left]

/-- Without braces the entries are read from what the lines show. -/
theorem mapping?_indented {ls : List (List Char × List Char)} (h : ∀ line ∈ ls, Indented line)
    (bare : ∀ line ∈ ls.head?, line.2.head? ≠ some '{')
    : mapping? (layOut (ls.map indentedLine)) = (entriesOf (ls.map Prod.snd)).map Table.ofList := by
  cases ls with
  | nil => rfl
  | cons line rest =>
      obtain ⟨indent, core⟩ := line
      obtain ⟨first, others⟩ := List.forall_mem_cons.mp h
      cases core with
      | nil => exact absurd rfl first.shown.shows
      | cons c core =>
          have shows : isBlank c = false := (trimmed_iff.mp first.shown.trimmed).1 c rfl
          have unbraced : c ≠ '{' := fun same => bare _ rfl (congrArg some same)
          have flush : Indented ([], c :: core) :=
            ⟨List.forall_mem_nil _, List.not_mem_nil, first.shown⟩
          have all : ∀ line ∈ ([], c :: core) :: rest, Indented line :=
            List.forall_mem_cons.mpr ⟨flush, others⟩
          have ends : ∀ line ∈ (c :: core) :: rest.map indentedLine,
              ∃ text, line = trimRight text ∧ allBlank text = false ∧ '\n' ∉ text := by
            intro line member
            obtain ⟨piece, found, rfl⟩ :=
              List.mem_map.mp (show line ∈ (([], c :: core) :: rest).map indentedLine from member)
            have inside := all piece found
            exact ⟨_, inside.trimRight_eq.symm, inside.shows, inside.newline⟩
          have split : layOut (((indent, c :: core) :: rest).map indentedLine)
              = indent ++ layOut ((c :: core) :: rest.map indentedLine) := by
            rw [List.map_cons, layOut_cons, layOut_cons, indentedLine, List.append_assoc]
          have trims := map_trim_indentedLine all
          rw [split, mapping?_append first.blank, mapping?_layOut_of_ends shows unbraced ends]
          exact congrArg (fun ls => (entriesOf ls).map Table.ofList) trims

/-- Lines between braces, the closing one indented. -/
theorem shownLines_between {ls : List (List Char × List Char)} (h : ∀ line ∈ ls, Indented line)
    {indent : List Char} (blank : Blanks indent) (plain : '\n' ∉ indent)
    : shownLines ('\n' :: (layOut (ls.map indentedLine) ++ indent)) = ls.map Prod.snd := by
  have oneLine : ∀ line ∈ ls.map indentedLine, OneLine line :=
    List.forall_mem_map.mpr (fun line member => (h line member).oneLine)
  have last : showing ((lines indent).map trim) = [] := by
    cases indent with
    | nil => rfl
    | cons c indent =>
        have single : lines (c :: indent) = [c :: indent] :=
          linesFrom_of_plain plain (Or.inr (List.cons_ne_nil _ _))
        have none : trim (c :: indent) = [] := by
          have trims := trim_between_blanks trimmed_nil blank (List.forall_mem_nil _)
          rwa [List.append_nil, List.append_nil] at trims
        rw [single, List.map_singleton, none]
        rfl
  have shown : showing (ls.map Prod.snd) = ls.map Prod.snd := by
    refine List.filter_eq_self.mpr (List.forall_mem_map.mpr (fun line member => ?_))
    simpa using (h line member).shown.shows
  calc shownLines ('\n' :: (layOut (ls.map indentedLine) ++ indent))
      = showing ((([] :: ls.map indentedLine) ++ lines indent).map trim) := by
        rw [shownLines, lines_newline, standsOn_layOut oneLine indent]
        rfl
    _ = showing (ls.map Prod.snd) ++ showing ((lines indent).map trim) := by
        rw [List.cons_append, List.map_cons, List.map_append, map_trim_indentedLine h]
        exact List.filter_append _ _
    _ = ls.map Prod.snd := by rw [shown, last, List.append_nil]

/-- Between braces the entries are read from what the lines there show. -/
theorem mapping?_braced {before after : List Char} {ls : List (List Char × List Char)}
    (h : ∀ line ∈ (before, ['{']) :: (ls ++ [(after, ['}'])]), Indented line)
    : mapping? (layOut (((before, ['{']) :: (ls ++ [(after, ['}'])])).map indentedLine))
        = (entriesOf (ls.map Prod.snd)).map Table.ofList := by
  obtain ⟨first, others⟩ := List.forall_mem_cons.mp h
  obtain ⟨inside, final⟩ := List.forall_mem_append.mp others
  have last := final _ (List.mem_singleton_self _)
  have written : layOut (((before, ['{']) :: (ls ++ [(after, ['}'])])).map indentedLine)
      = before
        ++ ('{' :: ('\n' :: (layOut (ls.map indentedLine) ++ after)) ++ ['}'] ++ ['\n']) := by
    simp [layOut, indentedLine]
  have trimmed : Trimmed ('{' :: ('\n' :: (layOut (ls.map indentedLine) ++ after)) ++ ['}']) :=
    trimmed_between (by decide) (by decide) _
  rw [written, mapping?_append first.blank, mapping?, trimmed.trim_append_of_isBlank (by decide),
    insideBraces, List.cons_append, after?_singleton, Option.bind_some, before?_append,
    Option.getD_some, shownLines_between inside last.blank last.plain]

-----------------------------------------------------------------------------------------
-- Entries of a section
-----------------------------------------------------------------------------------------

section Section

variable {raw : Raw} {cores : List (List Char)}

/-- The entries of a section without braces are those of what remains of its lines. -/
theorem mapping?_text_of_remains (literals : holdsLiterals raw.name = true)
    (remains : List.Forall₂ Remains cores raw.body) (trimmed : ∀ core ∈ cores, Trimmed core)
    (plain : ∀ line ∈ raw.body, '\n' ∉ line)
    (bare : ∀ core ∈ (showing cores).head?, core.head? ≠ some '{')
    : mapping? raw.text = (entriesOf (showing cores)).map Table.ofList := by
  obtain ⟨ls, text, shown, indented⟩ := exists_indented literals remains trimmed plain
  rw [text, ← shown]
  refine mapping?_indented indented (fun line first => bare line.2 ?_)
  rw [← shown, List.head?_map, show ls.head? = some line from first]
  rfl

/-- The entries of a section in braces are those of what remains of the lines between them. -/
theorem mapping?_text_of_braces (literals : holdsLiterals raw.name = true)
    (remains : List.Forall₂ Remains cores raw.body) (trimmed : ∀ core ∈ cores, Trimmed core)
    (plain : ∀ line ∈ raw.body, '\n' ∉ line) {inside : List (List Char)}
    (braced : showing cores = ['{'] :: (inside ++ [['}']]))
    : mapping? raw.text = (entriesOf inside).map Table.ofList := by
  obtain ⟨ls, text, shown, indented⟩ := exists_indented literals remains trimmed plain
  rw [braced] at shown
  obtain ⟨⟨before, _⟩, rest, rfl, rfl, behind⟩ := List.map_eq_cons_iff.mp shown
  obtain ⟨middle, ending, rfl, rfl, last⟩ := List.map_eq_append_iff.mp behind
  obtain ⟨⟨after, _⟩, rfl, rfl⟩ := List.map_eq_singleton_iff.mp last
  rw [text, mapping?_braced indented]

end Section

end QuizVariants.Section
