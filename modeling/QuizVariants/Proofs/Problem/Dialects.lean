import QuizVariants.Proofs.Problem.Layout
import QuizVariants.Proofs.Section.Tagged

/-! One problem in both dialects.
A problem of plain texts and of lines with references can be written in either dialect, and is read
from both sources as the same definition.
-/

namespace QuizVariants

open QuizVariants.Literal (enclose)
open QuizVariants.Markup (Line PlainText)
open QuizVariants.Section
open QuizVariants.Text

/-- A problem that both dialects have a way to write. -/
structure SharedProblem where
  id : PlainText
  title : PlainText
  statement : Option Line
  solution : Option Line
  choices : Option (List Line)

namespace SharedProblem

/-- The entries with information. -/
def entries (problem : SharedProblem) : List (String × PlainText) :=
  [("id", problem.id), ("title", problem.title)]

/-- The line of an entry under a section header. -/
def namedEntry (entry : String × PlainText) : List Char :=
  entry.1.toList ++ ':' :: ' ' :: enclose '"' entry.2.text

/-- The lines of a problem with tags: entries between single marks, and lines between text tags. -/
def taggedLines (problem : SharedProblem) : List (List Char) :=
  "Info".toList :: problem.entries.map enclosedEntry
    ++ problem.statement.elim [] (fun line => ["Question".toList, taggedLine line])
    ++ problem.choices.elim [] (fun lines => "Answer".toList :: lines.map taggedLine)
    ++ problem.solution.elim [] (fun line => ["Solution".toList, taggedLine line])

/-- The lines of a problem under section headers. -/
def primaryLines (problem : SharedProblem) : List (List Char) :=
  "<<info>>".toList :: problem.entries.map namedEntry
    ++ problem.statement.elim [] (fun line => ["<<statement>>".toList, line.text '@'])
    ++ problem.solution.elim [] (fun line => ["<<solution>>".toList, line.text '@'])
    ++ problem.choices.elim [] (fun lines =>
      "<<choices>>".toList :: lines.map (fun line => '-' :: ' ' :: line.text '@'))

/-- The source of a problem in a dialect. -/
def source (problem : SharedProblem) : Dialect → String
  | .primary => .ofList (layOut problem.primaryLines)
  | .legacy => .ofList (layOut problem.taggedLines)

/-- The two sources of a small problem. -/
example
    : let line : Line := ⟨[.plain (.ofString "Let " rfl), .reference "n".toList rfl], rfl⟩
      let problem : SharedProblem :=
        ⟨.ofString "q1" rfl, .ofString "Sum" rfl, some line, none, some [line]⟩
      problem.source .legacy
          = "Info\n'id': 'q1'\n'title': 'Sum'\nQuestion\n<watex>Let $\x7bn\x7d</watex>\n"
            ++ "Answer\n<watex>Let $\x7bn\x7d</watex>\n"
        ∧ problem.source .primary
          = "<<info>>\nid: \"q1\"\ntitle: \"Sum\"\n<<statement>>\nLet @\x7bn\x7d\n"
            ++ "<<choices>>\n- Let @\x7bn\x7d\n" := by
  decide +kernel

/-- The definition that a problem is. -/
def definition (problem : SharedProblem) : Definition :=
  { problemId := .ofList problem.id.text
    title := .ofList problem.title.text
    statement := problem.statement.elim "" Line.shown
    solution := problem.solution.elim "" Line.shown
    choices := problem.choices.elim [] (List.map Line.shown) }

/-- The entries with information as a section has them. -/
def info (problem : SharedProblem) : List (String × Literal) :=
  textEntries problem.entries

theorem needsNoEscapes_key (problem : SharedProblem)
    : ∀ entry ∈ problem.entries, Literal.NeedsNoEscapes entry.1.toList := by
  have id : Literal.NeedsNoEscapes "id".toList := by decide
  have title : Literal.NeedsNoEscapes "title".toList := by decide
  exact List.forall_mem_cons.mpr ⟨id, List.forall_mem_singleton.mpr title⟩

-----------------------------------------------------------------------------------------
-- The tagged source
-----------------------------------------------------------------------------------------

/-- The sections of the tagged source. -/
def pieces (problem : SharedProblem) : List Section.Piece :=
  ⟨"info", "Info".toList, problem.entries.map enclosedEntry⟩
    :: (problem.statement.map (fun line =>
        ⟨"question", "Question".toList, [taggedLine line]⟩)).toList
    ++ (problem.choices.map (fun lines =>
        ⟨"answer", "Answer".toList, lines.map taggedLine⟩)).toList
    ++ (problem.solution.map (fun line =>
        ⟨"solution", "Solution".toList, [taggedLine line]⟩)).toList

theorem taggedLines_eq (problem : SharedProblem)
    : problem.taggedLines = problem.pieces.flatMap Section.Piece.lines := by
  obtain ⟨id, title, statement, solution, choices⟩ := problem
  cases statement <;> cases solution <;> cases choices <;>
    simp [taggedLines, pieces, Section.Piece.lines]

/-- A section is found by its header among lines between text tags. -/
theorem found_taggedLines {name : String} {header : List Char}
    (heads : taggedHeader? header = some name) (ls : List Line)
    : Section.Piece.Found taggedHeader? ⟨name, header, ls.map taggedLine⟩ :=
  ⟨heads, List.forall_mem_map.mpr (fun line _ => taggedHeader?_taggedLine line)⟩

theorem found_pieces (problem : SharedProblem)
    : ∀ piece ∈ problem.pieces, piece.Found taggedHeader? := by
  have heads : taggedHeader? "Info".toList = some "info" := by decide
  have entries : ∀ line ∈ problem.entries.map enclosedEntry, taggedHeader? line = none :=
    List.forall_mem_map.mpr (fun entry _ => taggedHeader?_enclosedEntry entry)
  simp only [pieces, List.cons_append, List.forall_mem_cons, List.forall_mem_append,
    Option.mem_toList, Option.map_eq_some_iff]
  refine ⟨⟨heads, entries⟩, ⟨?_, ?_⟩, ?_⟩
  · rintro _ ⟨line, _, rfl⟩
    exact found_taggedLines (by decide) [line]
  · rintro _ ⟨lines, _, rfl⟩
    exact found_taggedLines (by decide) lines
  · rintro _ ⟨line, _, rfl⟩
    exact found_taggedLines (by decide) [line]

/-- The lines of a section with lines between text tags stand as they are. -/
theorem stand_taggedLines {name : String} {header : List Char} (stands : Stands header)
    (ls : List Line)
    : ∀ line ∈ (Section.Piece.mk name header (ls.map taggedLine)).lines, Stands line :=
  List.forall_mem_cons.mpr
    ⟨stands, List.forall_mem_map.mpr (fun line _ => stands_taggedLine line)⟩

theorem stand_pieces (problem : SharedProblem)
    : ∀ piece ∈ problem.pieces, ∀ line ∈ piece.lines, Stands line := by
  have header {text : List Char} (member : text ∈ ["Info".toList, "Question".toList,
        "Answer".toList, "Solution".toList])
      : Stands text := by
    have each : ∀ text ∈ ["Info".toList, "Question".toList, "Answer".toList, "Solution".toList],
        trim text = text ∧ text ≠ [] ∧ '\n' ∉ text ∧ '#' ∉ text := by
      decide
    obtain ⟨trimmed, shows, plain, uncommented⟩ := each text member
    exact ⟨⟨trimmed, shows, plain⟩, uncommented⟩
  have entries : ∀ line ∈ problem.entries.map enclosedEntry, Stands line := by
    have id : '#' ∉ "id".toList := by decide
    have title : '#' ∉ "title".toList := by decide
    have keys : ∀ entry ∈ problem.entries, '#' ∉ entry.1.toList :=
      List.forall_mem_cons.mpr ⟨id, List.forall_mem_singleton.mpr title⟩
    refine List.forall_mem_map.mpr (fun entry member => ?_)
    exact stands_enclosedEntry (problem.needsNoEscapes_key entry member) (keys entry member)
  have info : Stands "Info".toList := header (by decide)
  simp only [pieces, List.cons_append, List.forall_mem_cons, List.forall_mem_append,
    Option.mem_toList, Option.map_eq_some_iff]
  refine ⟨List.forall_mem_cons.mpr ⟨info, entries⟩, ⟨?_, ?_⟩, ?_⟩
  · rintro _ ⟨line, _, rfl⟩
    exact stand_taggedLines (header (by decide)) [line]
  · rintro _ ⟨lines, _, rfl⟩
    exact stand_taggedLines (header (by decide)) lines
  · rintro _ ⟨line, _, rfl⟩
    exact stand_taggedLines (header (by decide)) [line]

theorem names_pieces (problem : SharedProblem)
    : (problem.pieces.map Section.Piece.name).Nodup := by
  obtain ⟨id, title, statement, solution, choices⟩ := problem
  cases statement <;> cases solution <;> cases choices <;> simp [pieces]

/-- What the sections of the tagged source stand for. -/
theorem taggedContents_pieces (problem : SharedProblem)
    : taggedContents problem.pieces
        = ([("info", .mapping (.ofList problem.info))], [])
          :: (problem.statement.map (fun line => ([("statement", .text line.shown)], []))).toList
          ++ (problem.choices.map (fun lines =>
            ([("choices", .items (lines.map Line.shown))], []))).toList
          ++ (problem.solution.map (fun line =>
            ([("solution", .text line.shown)], []))).toList := by
  have info := decodeTagged_info problem.needsNoEscapes_key
  obtain ⟨id, title, statement, solution, choices⟩ := problem
  cases statement <;> cases solution <;> cases choices <;>
    simp [taggedContents, taggedNames, pieces, info, decodeTagged_question, decodeTagged_answer,
      decodeTagged_solution, SharedProblem.info]

/-- The sections that a tagged source stands for; reading it gives no warning. -/
theorem readTagged_source (problem : SharedProblem)
    : readTagged (layOut problem.taggedLines)
        = .ok (finish (.ofList ((taggedContents problem.pieces).flatMap Prod.fst)), []) := by
  have silent : (taggedContents problem.pieces).flatMap Prod.snd = [] := by
    rw [taggedContents_pieces]
    obtain ⟨id, title, statement, solution, choices⟩ := problem
    cases statement <;> cases solution <;> cases choices <;> rfl
  rw [taggedLines_eq, readTagged_layOut problem.found_pieces problem.stand_pieces
    problem.names_pieces, silent]

-----------------------------------------------------------------------------------------
-- The source under section headers
-----------------------------------------------------------------------------------------

/-- A line is displayed as it stands. -/
theorem isText_shown (line : Line) : IsText line.shown.toList := by
  have apart {c : Char} (special : c ∈ Markup.specialCharacters) (other : c ∉ ['@', '{', '}'])
      : c ∉ line.text '@' :=
    line.not_mem special other
  have trimmed : Trimmed (line.text '@') := line.trimmed_text (by decide)
  rw [Line.shown, String.toList_ofList]
  refine ⟨trimmed, apart (by decide) (by decide), apart (by decide) (by decide), ?_, ?_⟩
  · refine header?_eq_none trimmed.trimLeft_eq (fun start => ?_)
    exact apart (by decide) (by decide) (List.mem_of_head? start)
  · exact Markup.clean_of_plain (apart (by decide) (by decide)) (apart (by decide) (by decide))

/-- A line as a choice without further lines. -/
def choice (line : Line) : List Char × List (List Char) :=
  (line.text '@', [])

/-- The sections of the source under section headers. -/
def blocks (problem : SharedProblem) : List Block :=
  ⟨"info", problem.info.map entryLine, .mapping (.ofList problem.info)⟩
    :: (problem.statement.map (fun line =>
        ⟨"statement", [line.shown.toList], .text line.shown⟩)).toList
    ++ (problem.solution.map (fun line =>
        ⟨"solution", [line.shown.toList], .text line.shown⟩)).toList
    ++ (problem.choices.map (fun lines =>
        ⟨"choices", (lines.map choice).flatMap (fun item => dashLine item.1 :: item.2),
          .items ((lines.map choice).map (fun item => .ofList (itemText item)))⟩)).toList

/-- An entry under a section header is written as an entry with a string. -/
theorem namedEntry_eq {entry : String × PlainText} (named : isName entry.1.toList = true)
    : namedEntry entry = entryLine (entry.1, .quoted (.ofList entry.2.text)) := by
  have value
      : (Literal.quoted (.ofList entry.2.text)).source.toList = enclose '"' entry.2.text := by
    rw [Literal.source, String.toList_ofList, String.toList_ofList,
      Literal.quote_of_needsNoEscapes (needsNoEscapes_text entry.2)]
  rw [namedEntry, entryLine, value, Definition.keySource, if_pos named]

theorem primaryLines_eq (problem : SharedProblem)
    : problem.primaryLines = problem.blocks.flatMap Block.lines := by
  have info : problem.entries.map namedEntry = problem.info.map entryLine := by
    have id : isName "id".toList = true := by decide
    have title : isName "title".toList = true := by decide
    have named : ∀ entry ∈ problem.entries, isName entry.1.toList = true :=
      List.forall_mem_cons.mpr ⟨id, List.forall_mem_singleton.mpr title⟩
    rw [SharedProblem.info, textEntries, List.map_map]
    exact List.map_congr_left (fun entry member => namedEntry_eq (named entry member))
  have choices (lines : List Line)
      : lines.map (fun line => '-' :: ' ' :: line.text '@')
        = (lines.map choice).flatMap (fun item => dashLine item.1 :: item.2) := by
    rw [List.flatMap_map, List.map_eq_flatMap]
    rfl
  obtain ⟨id, title, statement, solution, choices⟩ := problem
  cases statement <;> cases solution <;> cases choices <;>
    simp [primaryLines, blocks, Block.lines, headerLine, info, choices, Line.shown]

theorem reads_blocks (problem : SharedProblem) : ∀ block ∈ problem.blocks, block.Reads := by
  have distinct : (problem.info.map Prod.fst).Nodup := by
    have names : problem.info.map Prod.fst = ["id", "title"] := rfl
    rw [names]
    decide
  have fits : ∀ entry ∈ problem.info, FitsLine entry.2 :=
    List.forall_mem_map.mpr (fun _ _ => fitsLine_of_isPlain trivial)
  have item (line : Line) : IsItem (choice line).1 (choice line).2 := by
    have text := isText_shown line
    rw [Line.shown, String.toList_ofList] at text
    exact ⟨text.trimmed, text.plain, text.uncommented, List.forall_mem_nil _⟩
  simp only [blocks, List.cons_append, List.forall_mem_cons, List.forall_mem_append,
    Option.mem_toList, Option.map_eq_some_iff]
  refine ⟨?_, ⟨?_, ?_⟩, ?_⟩
  · exact Definition.reads_mappingBlocks (by decide) distinct fits _ List.mem_cons_self
  · rintro _ ⟨line, _, rfl⟩
    exact Definition.reads_textBlock (by decide) (isText_shown line)
  · rintro _ ⟨line, _, rfl⟩
    exact Definition.reads_textBlock (by decide) (isText_shown line)
  · rintro _ ⟨lines, _, rfl⟩
    exact Definition.reads_choicesBlock (List.forall_mem_map.mpr (fun line _ => item line))

theorem names_blocks (problem : SharedProblem) : (problem.blocks.map Block.name).Nodup := by
  obtain ⟨id, title, statement, solution, choices⟩ := problem
  cases statement <;> cases solution <;> cases choices <;> simp [blocks]

theorem readPrimary_source (problem : SharedProblem)
    : readPrimary (layOut problem.primaryLines)
        = .ok (finish (.ofList (problem.blocks.map (fun block => (block.name, block.content)))),
            []) := by
  rw [primaryLines_eq]
  exact readPrimary_layOut problem.reads_blocks problem.names_blocks

-----------------------------------------------------------------------------------------
-- Both sources give one definition
-----------------------------------------------------------------------------------------

theorem ofSections_tagged (problem : SharedProblem)
    : Definition.ofSections
          (finish (.ofList ((taggedContents problem.pieces).flatMap Prod.fst)))
        = problem.definition := by
  rw [taggedContents_pieces]
  obtain ⟨id, title, statement, solution, choices⟩ := problem
  cases statement <;> cases solution <;> cases choices <;>
    simp [finish, renameId, spreadInfo, Table.ofList, Table.get?, Table.insertAll, Table.insert,
      Table.empty, insertEntry, findEntry?, Table.erase, eraseEntry, Definition.ofSections,
      Definition.take, info, textEntries, entries, definition, Literal.text,
      Literal.string?]

theorem ofSections_blocks (problem : SharedProblem)
    : Definition.ofSections
          (finish (.ofList (problem.blocks.map (fun block => (block.name, block.content)))))
        = problem.definition := by
  obtain ⟨id, title, statement, solution, choices⟩ := problem
  cases statement <;> cases solution <;> cases choices <;>
    simp [blocks, finish, renameId, spreadInfo, Table.ofList, Table.get?, Table.insertAll,
      Table.insert, Table.empty, insertEntry, findEntry?, Table.erase, eraseEntry,
      Definition.ofSections, Definition.take, info, textEntries, entries, definition, Literal.text,
      Literal.string?, choice, itemText, joinWith, Line.shown]

/-- A problem is read as the same definition from its source in either dialect, without warnings.
The definition does not depend on the dialect: the texts and the choices are those of the problem,
with the references as placeholders.
-/
theorem dialects_agree (problem : SharedProblem) (dialect : Dialect)
    : Definition.parse dialect (problem.source dialect) = .ok (problem.definition, []) := by
  cases dialect with
  | primary =>
      rw [Definition.parse, source, String.toList_ofList, Definition.readSections,
        readPrimary_source]
      change Except.ok (Definition.ofSections _, _) = _
      rw [ofSections_blocks]
  | legacy =>
      rw [Definition.parse, source, String.toList_ofList, Definition.readSections,
        readTagged_source]
      change Except.ok (Definition.ofSections _, _) = _
      rw [ofSections_tagged]

end SharedProblem

end QuizVariants
