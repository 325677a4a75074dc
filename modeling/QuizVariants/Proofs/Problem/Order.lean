import QuizVariants.Proofs.Problem.Parsed
import QuizVariants.Proofs.Section.Arrangement
import QuizVariants.Proofs.Table.Bindings

/-! Definitions and the order of their sections.
Every field of a definition, and every name of its metadata, is filled by the one section of its own
name, so that sections may change places. Main statement: a source fails to be read exactly if two
of its sections have one name, and otherwise every arrangement of its sections is read as the same
definition.
-/

namespace QuizVariants

open QuizVariants.Section

namespace Section

-----------------------------------------------------------------------------------------
-- The last step of reading does not see the order of sections
-----------------------------------------------------------------------------------------

theorem bindAlike_spreadInfo {first second : Sections} (h : Table.BindAlike first second)
    : Table.BindAlike (spreadInfo first) (spreadInfo second) := by
  rw [spreadInfo, spreadInfo, h "info"]
  split
  · exact (h.erase "info").insertAll _
  · exact h.erase "info"

theorem bindAlike_renameId {first second : Sections} (h : Table.BindAlike first second)
    : Table.BindAlike (renameId first) (renameId second) := by
  rw [renameId, renameId, h "id"]
  split
  · exact (h.erase "id").insert "problem_id" _
  · exact h

theorem bindAlike_finish {first second : Sections} (h : Table.BindAlike first second)
    : Table.BindAlike (finish first) (finish second) :=
  bindAlike_renameId (bindAlike_spreadInfo h)

end Section

namespace Definition

-----------------------------------------------------------------------------------------
-- What a section of one name decides
-----------------------------------------------------------------------------------------

/-- A part of a definition that only sections of one name fill. -/
structure DecidedBy (part : Definition → α) (name : String) : Prop where
  kept : ∀ definition other content, other ≠ name →
    part (definition.take other content) = part definition
  filled : ∀ first second content, part first = part second →
    part (first.take name content) = part (second.take name content)

/-- Sections of other names leave a part alone, by induction on them. -/
theorem DecidedBy.takeAll_of_fresh {part : Definition → α} {name : String}
    (h : DecidedBy part name) {sections : List (String × Content)}
    (fresh : name ∉ sections.map Prod.fst) (definition : Definition)
    : part (definition.takeAll sections) = part definition := by
  induction sections generalizing definition with
  | nil => rfl
  | cons entry rest ih =>
      simp only [List.map_cons, List.mem_cons, not_or] at fresh
      exact (ih fresh.2 _).trans (h.kept definition entry.1 entry.2 (Ne.symm fresh.1))

/-- Of sections under distinct names the one of a part's name decides about the part. -/
theorem DecidedBy.takeAll_eq {part : Definition → α} {name : String} (h : DecidedBy part name)
    {sections : List (String × Content)} (distinct : (sections.map Prod.fst).Nodup)
    (definition : Definition)
    : part (definition.takeAll sections)
        = match findEntry? name sections with
          | some content => part (definition.take name content)
          | none => part definition := by
  cases found : findEntry? name sections with
  | none => exact h.takeAll_of_fresh (findEntry?_eq_none_iff.mp found) definition
  | some content =>
      obtain ⟨front, back, rfl⟩ := List.append_of_mem (mem_of_found found)
      obtain ⟨first, last⟩ := fresh_of_distinct distinct
      rw [takeAll_append]
      exact (h.takeAll_of_fresh last _).trans
        (h.filled _ definition content (h.takeAll_of_fresh first definition))

/-- Tables of sections that bind alike fill a part alike. -/
theorem DecidedBy.ofSections_eq {part : Definition → α} {name : String} (h : DecidedBy part name)
    {first second : Sections} (same : Table.BindAlike first second)
    : part (ofSections first) = part (ofSections second) := by
  have taken := h.takeAll_eq first.distinct {}
  have taken' := h.takeAll_eq second.distinct {}
  have found : findEntry? name first.entries = findEntry? name second.entries := same name
  rw [found] at taken
  exact taken.trans taken'.symm

-----------------------------------------------------------------------------------------
-- The parts of a definition
-----------------------------------------------------------------------------------------

/-- Every field is decided by the sections of its name, by cases on what a section fills. -/
theorem decidedBy_fields
    : DecidedBy problemId "problem_id" ∧ DecidedBy title "title" ∧ DecidedBy tags "tags"
      ∧ DecidedBy statement "statement" ∧ DecidedBy answer "answer"
      ∧ DecidedBy solution "solution" ∧ DecidedBy solutionTitle "solution_title"
      ∧ DecidedBy choices "choices" ∧ DecidedBy parameters "parameters" := by
  refine ⟨?_, ?_, ?_, ?_, ?_, ?_, ?_, ?_, ?_⟩
  all_goals
    constructor
    · intro definition other content apart
      unfold take
      split <;> first | rfl | exact absurd rfl apart
    · intro first second content same
      cases content <;> simp_all [take]

/-- Metadata is bound by literals under names without a field. -/
theorem metadata_take (definition : Definition) (name : String) (content : Content)
    : (definition.take name content).metadata
        = match content with
          | .value literal =>
            if name ∈ fieldNames then definition.metadata
            else definition.metadata.insert name literal
          | _ => definition.metadata := by
  cases content with
  | value literal =>
      by_cases field : name ∈ fieldNames
      · rcases definition.take_cases name (.value literal) with ⟨_, same⟩ | ⟨_, _, ⟨⟩, _⟩
          | ⟨other, _⟩
        · exact same.trans (if_pos field).symm
        · exact absurd field other
      · exact (congrArg metadata (take_metadata field definition literal)).trans (if_neg field).symm
  | text shown =>
      rcases definition.take_cases name (.text shown) with ⟨_, same⟩ | ⟨_, _, ⟨⟩, _⟩
        | ⟨_, _, ⟨⟩, _⟩
      exact same
  | items shown =>
      rcases definition.take_cases name (.items shown) with ⟨_, same⟩ | ⟨_, _, ⟨⟩, _⟩
        | ⟨_, _, ⟨⟩, _⟩
      exact same
  | mapping table =>
      rcases definition.take_cases name (.mapping table) with ⟨_, same⟩ | ⟨_, _, _, _, same⟩
        | ⟨_, _, ⟨⟩, _⟩
      all_goals exact same

/-- Every name of the metadata is decided by the sections of this name. -/
theorem decidedBy_metadata (key : String)
    : DecidedBy (fun definition => definition.metadata.get? key) key := by
  constructor
  · intro definition other content apart
    rw [metadata_take]
    split
    · split
      · rfl
      · rw [Table.get?_insert, if_neg apart]
    · rfl
  · intro first second content same
    rw [metadata_take, metadata_take]
    split
    · split
      · exact same
      · rw [Table.get?_insert, Table.get?_insert, if_pos rfl, if_pos rfl]
    · exact same

-----------------------------------------------------------------------------------------
-- Arrangements of the sections of a source
-----------------------------------------------------------------------------------------

/-- Definitions that differ in nothing but the order of their metadata. -/
structure Alike (first second : Definition) : Prop where
  problemId : first.problemId = second.problemId
  title : first.title = second.title
  tags : first.tags = second.tags
  statement : first.statement = second.statement
  answer : first.answer = second.answer
  solution : first.solution = second.solution
  solutionTitle : first.solutionTitle = second.solutionTitle
  choices : first.choices = second.choices
  parameters : first.parameters = second.parameters
  metadata : Table.BindAlike first.metadata second.metadata

theorem alike_ofSections {first second : Sections} (same : Table.BindAlike first second)
    : Alike (ofSections first) (ofSections second) := by
  obtain ⟨problemId, title, tags, statement, answer, solution, solutionTitle, choices,
    parameters⟩ := decidedBy_fields
  exact
    { problemId := problemId.ofSections_eq same
      title := title.ofSections_eq same
      tags := tags.ofSections_eq same
      statement := statement.ofSections_eq same
      answer := answer.ofSections_eq same
      solution := solution.ofSections_eq same
      solutionTitle := solutionTitle.ofSections_eq same
      choices := choices.ofSections_eq same
      parameters := parameters.ofSections_eq same
      metadata := fun key => (decidedBy_metadata key).ofSections_eq same }

theorem parse_of_firstRepeat {sections earlier : List Written} {repeated : Written}
    (h : FirstRepeat sections earlier repeated) (preamble : List PlainLine)
    : parse .primary (sourceOf preamble sections)
        = .error (.duplicateSection repeated.name (lineBehind preamble earlier)) := by
  rw [parse, readSections, readPrimary_of_firstRepeat h]
  rfl

theorem parse_of_distinct {sections : List Written} (distinct : (sections.map Written.name).Nodup)
    (preamble : List PlainLine)
    : parse .primary (sourceOf preamble sections)
        = .ok (ofSections (finish (.ofList (sections.map Written.entry))),
            sections.flatMap (fun written => written.read.2)) := by
  rw [parse, readSections, readPrimary_sourceOf preamble distinct]
  rfl

/-- Sections do not depend on their order.
A source fails to be read exactly if two headers have one name, and then the first header that
repeats a name is reported with its line; otherwise every arrangement of the sections is read as
the same definition, with the same warnings, whatever their bodies are.
-/
theorem parse_arranged (preamble : List PlainLine) (sections : List Written)
    : ((∃ error, parse .primary (sourceOf preamble sections) = .error error)
        ↔ ¬ (sections.map Written.name).Nodup)
      ∧ (∀ error, parse .primary (sourceOf preamble sections) = .error error
        ↔ ∃ earlier repeated, FirstRepeat sections earlier repeated
          ∧ error = .duplicateSection repeated.name (lineBehind preamble earlier))
      ∧ ((sections.map Written.name).Nodup → ∀ arranged, sections.Perm arranged →
        ∃ definition warnings other others,
          parse .primary (sourceOf preamble sections) = .ok (definition, warnings)
          ∧ parse .primary (sourceOf preamble arranged) = .ok (other, others)
          ∧ definition.Alike other ∧ warnings.Perm others) := by
  have names : sections.map Written.name = (sections.map Written.entry).map Prod.fst := by
    rw [List.map_map]
    rfl
  by_cases distinct : (sections.map Written.name).Nodup
  · have read := parse_of_distinct distinct preamble
    have reads (error : ParseError)
        : parse .primary (sourceOf preamble sections) ≠ .error error := by
      rw [read]
      exact nofun
    refine ⟨⟨fun ⟨error, failed⟩ => absurd failed (reads error),
      fun again => absurd distinct again⟩,
      fun error => ⟨fun failed => absurd failed (reads error), ?_⟩, fun _ arranged same => ?_⟩
    · rintro ⟨earlier, repeated, first, rfl⟩
      exact parse_of_firstRepeat first preamble
    · have distinct' : (arranged.map Written.name).Nodup :=
        (same.map Written.name).nodup_iff.mp distinct
      refine ⟨_, _, _, _, read, parse_of_distinct distinct' preamble, ?_, same.flatMap_right _⟩
      exact alike_ofSections (bindAlike_finish
        (Table.bindAlike_ofList (same.map Written.entry) (names ▸ distinct)))
  · obtain ⟨earlier, repeated, first⟩ := exists_firstRepeat distinct
    have failed := parse_of_firstRepeat first preamble
    refine ⟨⟨fun _ => distinct, fun _ => ⟨_, failed⟩⟩, fun error => ⟨fun same => ?_, ?_⟩,
      fun names => absurd names distinct⟩
    · exact ⟨earlier, repeated, first, Except.error.inj (same.symm.trans failed)⟩
    · rintro ⟨earlier, repeated, first, rfl⟩
      exact parse_of_firstRepeat first preamble

/-- A section with blanks and a comment around its label, which gives an identifier. -/
def infoSection : Written where
  label := ['I', 'n', 'f', 'o']
  header := "  << Info >> # about".toList
  heads := @Heads.intro _ [' ', ' '] [' '] [' '] [' '] "# about".toList (by decide) (by decide)
    (by decide) (by decide) (by decide) (List.all_eq_true.mp rfl) (by decide)
  oneLine := by decide
  body := [⟨"id: 7".toList, header?_eq_none_iff.mp (by decide), by decide⟩]

/-- A section whose only entry opens a string that nothing closes. -/
def openSection : Written where
  label := "PARAMETERS".toList
  header := "<<PARAMETERS>>".toList
  heads := @Heads.intro _ [] [] [] [] [] (by decide) (by decide) (by decide) (by decide)
    (by decide) (List.all_eq_true.mp rfl) (by decide)
  oneLine := by decide
  body := [⟨"a: \"\"\"1".toList, header?_eq_none_iff.mp (by decide), by decide⟩]

/-- A section on lines that end in carriage returns. -/
def hintSection : Written where
  label := "hint".toList
  header := "<<hint>>\r".toList
  heads := @Heads.intro _ [] [] [] ['\r'] [] (by decide) (by decide) (by decide) (by decide)
    (by decide) (List.all_eq_true.mp rfl) (by decide)
  oneLine := by decide
  body := [⟨"look up\r".toList, header?_eq_none_iff.mp (by decide), by decide⟩]

/-- The string that stays open reaches no other section in any order, and a second hint is
reported with its line. -/
theorem parse_arranged_open
    : ([infoSection, openSection, hintSection].map Written.name).Nodup
      ∧ (∃ definition warnings other others,
        parse .primary (sourceOf [] [infoSection, openSection, hintSection])
          = .ok (definition, warnings)
        ∧ parse .primary (sourceOf [] [openSection, hintSection, infoSection]) = .ok (other, others)
        ∧ definition.Alike other ∧ warnings.Perm others)
      ∧ parse .primary (sourceOf [] [hintSection, openSection, hintSection, infoSection])
        = .error (.duplicateSection "hint" 5) := by
  have distinct : ([infoSection, openSection, hintSection].map Written.name).Nodup := by decide
  have turned : [infoSection, openSection, hintSection].Perm
      [openSection, hintSection, infoSection] :=
    (List.perm_append_singleton infoSection [openSection, hintSection]).symm
  have again : FirstRepeat [hintSection, openSection, hintSection, infoSection]
      [hintSection, openSection] hintSection :=
    { stands := ⟨[infoSection], rfl⟩
      distinct := by decide
      again := by decide }
  exact ⟨distinct, (parse_arranged [] _).2.2 distinct _ turned,
    ((parse_arranged [] _).2.1 _).mpr ⟨_, _, again, rfl⟩⟩

end Definition

end QuizVariants
