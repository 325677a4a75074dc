import QuizVariants.Proofs.Problem.Assembly

/-! Definitions read from what they are written as.
A definition is written block by block. Where the blocks are told apart, each of them is read on its
own, and their contents are put together to the definition again, but for its free texts.
-/

namespace QuizVariants.Definition

open QuizVariants.Section
open QuizVariants.Text

/-- A definition whose parts are told apart in its source: each literal fits the line of its entry,
metadata has names of its own, no line of a display text is a header, and the choices are such as a
section of choices can hold. -/
structure FitsSource (definition : Definition) : Prop where
  parameters : ∀ entry ∈ definition.parameters.entries, FitsLine entry.2
  metadata : ∀ entry ∈ definition.metadata.entries, FitsLine entry.2
  named : definition.NamedApart
  either : "parameters" ∈ definition.metadata.names → definition.parameters = .empty
  statement : ∀ line ∈ lines (definition.statement.toList ++ ['\n']), header? line = none
  answer : ∀ line ∈ lines (definition.answer.toList ++ ['\n']), header? line = none
  solution : ∀ line ∈ lines (definition.solution.toList ++ ['\n']), header? line = none
  choices : ∀ choice ∈ definition.choices, ∃ item, IsChoice choice item

-----------------------------------------------------------------------------------------
-- The blocks of a definition
-----------------------------------------------------------------------------------------

/-- The blocks of a definition with a body of their own kind, whatever its texts are. -/
def bodyBlocks (definition : Definition) (items : List (List Char × List (List Char)))
    : List Block :=
  mappingBlocks "parameters" definition.parameters.entries
    ++ displayBlocks "statement" definition.statement
    ++ displayBlocks "answer" definition.answer
    ++ displayBlocks "solution" definition.solution
    ++ choicesBlocks items

/-- All blocks of a definition. -/
def allBlocks (definition : Definition) (items : List (List Char × List (List Char)))
    : List Block :=
  mappingBlocks "info" definition.infoEntries ++ definition.bodyBlocks items

/-- The blocks stand in the order of the sections; none of them is left out of place. -/
theorem names_bodyBlocks (definition : Definition) (items : List (List Char × List (List Char)))
    : ((definition.bodyBlocks items).map Block.name).Sublist bodyNames := by
  simp only [bodyBlocks, List.map_append]
  exact ((((names_mappingBlocks _ _).append (names_displayBlocks _ _)).append
    (names_displayBlocks _ _)).append (names_displayBlocks _ _)).append (names_choicesBlocks _)

theorem nodup_names_allBlocks (definition : Definition)
    (items : List (List Char × List (List Char)))
    : ((definition.allBlocks items).map Block.name).Nodup := by
  have names : ((definition.allBlocks items).map Block.name).Sublist sectionNames := by
    rw [allBlocks, List.map_append]
    exact (names_mappingBlocks _ _).append (names_bodyBlocks definition items)
  -- A block that is left out takes its name with it, so the names are some of all of them.
  have distinct : sectionNames.Nodup := by decide
  exact distinct.sublist names

section

variable {definition : Definition} {items : List (List Char × List (List Char))}

/-- Where parameters are metadata there is no section of them. -/
theorem parameters_not_mem_bodyBlocks (none : definition.parameters = .empty)
    : "parameters" ∉ ((definition.bodyBlocks items).map entryOf).map Prod.fst := by
  rw [List.map_map]
  have names : ((definition.bodyBlocks items).map Block.name).Sublist
      ["statement", "answer", "solution", "choices"] := by
    simp only [bodyBlocks, none, List.map_append]
    exact (((names_displayBlocks _ _).append (names_displayBlocks _ _)).append
      (names_displayBlocks _ _)).append (names_choicesBlocks _)
  exact fun member => absurd (names.subset member) (by decide)

-----------------------------------------------------------------------------------------
-- The source is divided into the blocks again
-----------------------------------------------------------------------------------------

theorem standsOn_layOutBlocks {blocks : List Block} (reads : ∀ block ∈ blocks, block.Reads)
    : StandsOn (layOutBlocks blocks) (blocks.flatMap Block.lines) := by
  refine standsOn_layOut (fun line member => ?_)
  obtain ⟨block, found, inside⟩ := List.mem_flatMap.mp member
  exact (reads block found).oneLine line inside

/-- The blocks of literals are read. -/
theorem FitsSource.reads_literals (h : definition.FitsSource)
    : (∀ block ∈ mappingBlocks "info" definition.infoEntries, block.Reads)
      ∧ ∀ block ∈ mappingBlocks "parameters" definition.parameters.entries, block.Reads :=
  ⟨reads_mappingBlocks (by decide) h.named.distinct (fitsLine_infoEntries h.metadata),
    reads_mappingBlocks (by decide) definition.parameters.distinct h.parameters⟩

theorem FitsSource.found_allBlocks (h : definition.FitsSource)
    (wholes : ∀ item ∈ items, IsItem item.1 item.2)
    : ∀ block ∈ definition.allBlocks items, block.Found := by
  obtain ⟨info, parameters⟩ := h.reads_literals
  simp only [allBlocks, bodyBlocks, List.forall_mem_append]
  refine ⟨fun block member => (info block member).found,
    ⟨⟨⟨fun block member => (parameters block member).found, ?_⟩, ?_⟩, ?_⟩, ?_⟩
  · exact found_displayBlocks (by decide) h.statement
  · exact found_displayBlocks (by decide) h.answer
  · exact found_displayBlocks (by decide) h.solution
  · exact fun block member => (reads_choicesBlocks wholes block member).found

/-- A source stands on the lines of its blocks, each of its sections on those of its own. -/
theorem FitsSource.standsOn_source (h : definition.FitsSource)
    (same : definition.choices = items.map (fun item => .ofList (itemText item)))
    (wholes : ∀ item ∈ items, IsItem item.1 item.2)
    : StandsOn definition.source.toList ((definition.allBlocks items).flatMap Block.lines) := by
  obtain ⟨info, parameters⟩ := h.reads_literals
  have display (name : String) (listed : name ∈ sectionNames) (text : String)
      : StandsOn (textSource name text).toList
          ((displayBlocks name text).flatMap Block.lines) :=
    standsOn_textSource (header?_headerLine listed).2 text
  have literals (name : String) (entries : List (String × Literal))
      (reads : ∀ block ∈ mappingBlocks name entries, block.Reads)
      : StandsOn (mappingSource name entries).toList
          ((mappingBlocks name entries).flatMap Block.lines) := by
    rw [toList_mappingSource]
    exact standsOn_layOutBlocks reads
  have choices : StandsOn (choicesSource definition.choices).toList
      ((choicesBlocks items).flatMap Block.lines) := by
    rw [same, toList_choicesSource]
    exact standsOn_layOutBlocks (reads_choicesBlocks wholes)
  have all := (((((literals "info" _ info).append (literals "parameters" _ parameters)).append
    (display "statement" (by decide) definition.statement)).append
    (display "answer" (by decide) definition.answer)).append
    (display "solution" (by decide) definition.solution)).append choices
  simpa only [source, allBlocks, bodyBlocks, String.toList_append, List.flatMap_append,
    List.append_assoc] using all

-----------------------------------------------------------------------------------------
-- The sections are put together again
-----------------------------------------------------------------------------------------

/-- The sections of a source: those with a body, then the entries with information, and the
identifier at last. -/
theorem FitsSource.entries_finish (h : definition.FitsSource)
    (items : List (List Char × List (List Char)))
    : (finish (.ofList ((definition.allBlocks items).map entryOf))).entries
        = (definition.bodyBlocks items).map entryOf
          ++ definition.laterEntries.map valueSection
          ++ (textEntry "problem_id" definition.problemId).map valueSection := by
  have names : (((definition.bodyBlocks items).map entryOf).map Prod.fst).Sublist bodyNames := by
    rw [List.map_map]
    exact names_bodyBlocks definition items
  rw [allBlocks, List.map_append]
  exact h.named.entries_finish names
    (fun member => parameters_not_mem_bodyBlocks (h.either member))

/-- The sections with a body fill the fields that they are written for, each text as it is read
again. -/
theorem takeAll_bodyBlocks
    (same : definition.choices = items.map (fun item => .ofList (itemText item)))
    : takeAll {} ((definition.bodyBlocks items).map entryOf)
        = { parameters := definition.parameters
            statement := reread definition.statement
            answer := reread definition.answer
            solution := reread definition.solution
            choices := definition.choices } := by
  obtain ⟨_, _, _, statement, answer, solution, _, choices, parameters, _⟩ := definition
  replace same : choices = items.map (fun item => .ofList (itemText item)) := same
  -- Each step fills one field; a field whose section is left out keeps its default.
  have one : takeAll {} ((mappingBlocks "parameters" parameters.entries).map entryOf)
      = { parameters } :=
    takeAll_mappingBlocks (by rintro rfl; rfl) rfl
  have two : takeAll { parameters } ((displayBlocks "statement" statement).map entryOf)
      = { parameters, statement := reread statement } :=
    takeAll_displayBlocks (by rintro rfl; rw [reread_empty]) rfl
  have three : takeAll { parameters, statement := reread statement }
        ((displayBlocks "answer" answer).map entryOf)
      = { parameters, statement := reread statement, answer := reread answer } :=
    takeAll_displayBlocks (by rintro rfl; rw [reread_empty]) rfl
  have four : takeAll { parameters, statement := reread statement, answer := reread answer }
        ((displayBlocks "solution" solution).map entryOf)
      = { parameters, statement := reread statement, answer := reread answer,
          solution := reread solution } :=
    takeAll_displayBlocks (by rintro rfl; rw [reread_empty]) rfl
  have five : takeAll
        { parameters, statement := reread statement, answer := reread answer,
          solution := reread solution }
        ((choicesBlocks items).map entryOf)
      = { parameters, statement := reread statement, answer := reread answer,
          solution := reread solution, choices } :=
    takeAll_choicesBlocks (by rintro rfl; exact same ▸ rfl) (same ▸ rfl)
  simp only [bodyBlocks, List.map_append, takeAll_append]
  rw [one, two, three, four, five]

/-- A definition is read from its source as it is but for its free texts, and without a warning.
The blocks of the source are found one by one, and their contents are put together again.
-/
theorem FitsSource.parse_written (h : definition.FitsSource)
    : parse .primary definition.source
        = .ok
          ({ definition with
              statement := reread definition.statement
              answer := reread definition.answer
              solution := reread definition.solution },
            []) := by
  obtain ⟨items, same, wholes⟩ := exists_items h.choices
  have read : readPrimary definition.source.toList
      = .ok (finish (.ofList ((definition.allBlocks items).map entryOf)), []) :=
    readPrimary_of_lines (h.standsOn_source same wholes).lines_eq (h.found_allBlocks wholes)
      (nodup_names_allBlocks definition items)
  have others : ∀ name ∈ definition.metadata.names, name ∉ fieldNames :=
    fun name member field => h.named name member (List.mem_cons_of_mem _ field)
  have assembled := takeAll_information others definition.parameters
    (reread definition.statement) (reread definition.answer) (reread definition.solution)
    definition.choices
  rw [← takeAll_bodyBlocks same, ← takeAll_append, ← List.append_assoc, ← h.entries_finish items]
    at assembled
  rw [parse, readSections, read]
  change Except.ok (ofSections _, []) = _
  exact congrArg (fun definition => Except.ok (definition, [])) assembled

end

end QuizVariants.Definition
