import QuizVariants.Proofs.Problem.Parsed
import QuizVariants.Proofs.Problem.Written

/-! Sources written again.
A definition that was read from a source is written as another source, which is read as the same
definition but for its free texts. This fails for literals that do not keep to the line of an entry,
the only ones being texts kept verbatim and infinite floats: one of them that runs over several
lines takes all metadata and the titles with it.
-/

namespace QuizVariants.Definition

open QuizVariants.Section
open QuizVariants.Text
open QuizVariants.Literal (IsRead)

/-- A definition that keeps its lines: no literal runs over the line of its entry, no line of a
display text is a header, and the choices are such as a section of choices can hold. -/
structure KeepsToLines (definition : Definition) : Prop where
  parameters : ∀ entry ∈ definition.parameters.entries,
    KeepsToLine entry.2.source.toList ∧ entry.2.FloatsRecover
  metadata : ∀ entry ∈ definition.metadata.entries,
    KeepsToLine entry.2.source.toList ∧ entry.2.FloatsRecover
  statement : ∀ line ∈ lines (definition.statement.toList ++ ['\n']), header? line = none
  answer : ∀ line ∈ lines (definition.answer.toList ++ ['\n']), header? line = none
  solution : ∀ line ∈ lines (definition.solution.toList ++ ['\n']), header? line = none
  choices : ∀ choice ∈ definition.choices, ∃ item, IsChoice choice item

/-- A literal that was read and keeps to its line fits it. -/
theorem fitsLine_of_isRead {literal : Literal} (read : literal.IsRead)
    (keeps : KeepsToLine literal.source.toList ∧ literal.FloatsRecover)
    : FitsLine literal := by
  obtain ⟨trimmed, again⟩ := read.read_source keeps.2
  exact ⟨keeps.1, trimmed, again⟩

/-- A definition that was read and keeps its lines is told apart in its source; its names were told
apart in the source that it was read from. -/
theorem KeepsToLines.fitsSource {definition : Definition} {seen : List String}
    (keeps : definition.KeepsToLines)
    (taken : TakenFrom seen definition.parameters definition.metadata)
    : definition.FitsSource where
  parameters entry member :=
    fitsLine_of_isRead (taken.parametersRead entry member) (keeps.parameters entry member)
  metadata entry member :=
    fitsLine_of_isRead (taken.metadataRead entry member) (keeps.metadata entry member)
  named := taken.named
  either := taken.either
  statement := keeps.statement
  answer := keeps.answer
  solution := keeps.solution
  choices := keeps.choices

/-- What was read from a source is read again from the source that it is written as, but for its
free texts: the identifier, the titles, the tags, the parameters, the metadata and the choices are
the same, and no warning is given.
Its literals were read from texts, which makes them fit the lines that they keep to.
-/
theorem parse_source_of_parse {source : String} {definition : Definition}
    {warnings : List Warning} (read : parse .primary source = .ok (definition, warnings))
    (keeps : definition.KeepsToLines)
    : parse .primary definition.source
        = .ok
          ({ definition with
              statement := reread definition.statement
              answer := reread definition.answer
              solution := reread definition.solution },
            []) := by
  obtain ⟨_, taken⟩ := takenFrom_of_parse read
  exact (keeps.fitsSource taken).parse_written

-----------------------------------------------------------------------------------------
-- A source that keeps its lines, and one that does not
-----------------------------------------------------------------------------------------

/-- A source with texts that could be misread, on lines of their own. -/
def mixedSource : String :=
  "<<hint>>\nit's \"a#b\n<<parameters>>\nn: [\"#\", x y]\n<<statement>>\nWhat is\n"
    ++ "@\x7bn\x7d? # list\n<<choices>>\n- 1\n- one\n  less\n"

def mixed : Definition :=
  { statement := "What is @\x7bn\x7d?"
    choices := ["1", "one\nless"]
    parameters := .ofList [("n", .list [.quoted "#", .verbatim "x y"])]
    metadata := .ofList [("hint", .verbatim "it's \"a")] }

set_option maxRecDepth 10000 in
/-- What such a source is read as is read again from its own source. -/
theorem parse_source_mixed
    : parse .primary mixedSource = .ok (mixed, []) ∧ mixed.KeepsToLines
      ∧ parse .primary mixed.source
        = .ok
          ({ mixed with
              statement := reread mixed.statement
              answer := reread mixed.answer
              solution := reread mixed.solution },
            []) := by
  have read : parse .primary mixedSource = .ok (mixed, []) := by decide +kernel
  have parameters : mixed.parameters.entries = [("n", .list [.quoted "#", .verbatim "x y"])] := rfl
  have metadata : mixed.metadata.entries = [("hint", .verbatim "it's \"a")] := rfl
  have keeps : mixed.KeepsToLines :=
    { parameters := by
        rw [parameters]
        refine List.forall_mem_singleton.mpr ⟨by decide +kernel, ?_⟩
        simp [Literal.FloatsRecover, Literal.Recovers]
      metadata := by
        rw [metadata]
        exact List.forall_mem_singleton.mpr ⟨by decide +kernel, trivial⟩
      statement := by decide
      answer := by decide
      solution := by decide
      choices := by
        refine List.forall_mem_cons.mpr ⟨⟨(['1'], []), rfl, ?_⟩,
          List.forall_mem_singleton.mpr ⟨("one".toList, ["less".toList]), rfl, ?_⟩⟩
        · exact ⟨rfl, by decide, by decide, List.forall_mem_nil _⟩
        · refine ⟨rfl, by decide, by decide, List.forall_mem_singleton.mpr ?_⟩
          exact ⟨⟨rfl, by decide, by decide⟩, by decide, by decide, by decide⟩ }
  exact ⟨read, keeps, parse_source_of_parse read keeps⟩

/-- A definition with a hint of two lines, which its source gives the line of an entry. -/
def hinted : Definition :=
  { title := "T"
    metadata := .ofList [("hint", .verbatim "foo\nbar")] }

/-- The second line of the hint makes all entries with information malformed, so that reading the
written source loses the title as well. -/
theorem parse_source_hinted
    : parse .primary "<<info>>\ntitle: \"T\"\n<<hint>>\nfoo\nbar\n" = .ok (hinted, [])
      ∧ parse .primary hinted.source = .ok ({}, [.malformedMapping "info"])
      ∧ hinted.title ≠ "" := by
  refine ⟨by decide +kernel, by decide +kernel, by decide⟩

end QuizVariants.Definition
