import QuizVariants.Proofs.Markup.Cleanup
import QuizVariants.Proofs.Problem.Written

/-! Definitions read back.
A definition whose texts survive on lines of their own is read back from its source as it is: with
its parameters and metadata in their order, and without a warning.
-/

namespace QuizVariants.Definition

open QuizVariants.Section
open QuizVariants.Text

/-- The names that no metadata may have: those of fields, and of sections with a body. -/
def reservedNames : List String :=
  "id" :: "parameters" :: fieldNames

/-- A definition that its source can hold. The identifier, the titles, the tags and the names of
parameters are any strings.
-/
structure Representable (definition : Definition) : Prop where
  parameters : ∀ entry ∈ definition.parameters.entries, entry.2.IsPlain
  metadata : ∀ entry ∈ definition.metadata.entries, entry.2.IsPlain
  names : ∀ name ∈ definition.metadata.names, name ∉ reservedNames
  statement : IsText definition.statement.toList
  answer : IsText definition.answer.toList
  solution : IsText definition.solution.toList
  choices : ∀ choice ∈ definition.choices, ∃ item, IsChoice choice item

/-- A representable definition is told apart in its source: a name with a section of its own is
reserved, so that no metadata has it, and a display text stands on one line, which is no header. -/
theorem Representable.fitsSource {definition : Definition} (h : definition.Representable)
    : definition.FitsSource where
  parameters entry member := fitsLine_of_isPlain (h.parameters entry member)
  metadata entry member := fitsLine_of_isPlain (h.metadata entry member)
  named name member field := by
    refine h.names name member ?_
    rcases List.mem_cons.mp field with rfl | field
    · exact List.mem_cons_self
    · exact List.mem_cons_of_mem _ (List.mem_cons_of_mem _ field)
  either member := absurd (by decide) (h.names "parameters" member)
  statement := (reread_of_isText h.statement).2
  answer := (reread_of_isText h.answer).2
  solution := (reread_of_isText h.solution).2
  choices := h.choices

/-- A representable definition is read back from its source.
It is told apart there, so that all but its texts is read as it is; and each of its texts survives
on its line.
-/
theorem parse_source {definition : Definition} (h : definition.Representable)
    : parse .primary definition.source = .ok (definition, []) := by
  have read := h.fitsSource.parse_written
  rwa [(reread_of_isText h.statement).1, (reread_of_isText h.answer).1,
    (reread_of_isText h.solution).1] at read

-----------------------------------------------------------------------------------------
-- A definition full of signs that could be misread
-----------------------------------------------------------------------------------------

/-- Trimmed text on one line without number signs and markup is display text. -/
theorem isText_of_all {text : List Char} (trimmed : Trimmed text)
    (plain : text.all (fun c => !(['\n', '#', '\\', '<'].contains c)) = true)
    : IsText text := by
  have absent (c : Char) (h : ['\n', '#', '\\', '<'].contains c = true) : c ∉ text := by
    intro member
    have other := List.all_eq_true.mp plain c member
    rw [h] at other
    exact nomatch other
  refine ⟨trimmed, absent '\n' rfl, absent '#' rfl, ?_,
    Markup.clean_of_plain (absent '\\' rfl) (absent '<' rfl)⟩
  refine header?_eq_none trimmed.trimLeft_eq (fun first => ?_)
  exact absent '<' rfl (List.mem_of_head? first)

/-- A definition with strings that look like comments, quotes, lists and headers. -/
def awkward : Definition :=
  { problemId := "p#1, \"a\""
    title := "<<info>>\n[x\\"
    tags := ["", "'#'"]
    statement := "what is @\x7bn\x7d, then?"
    choices := ["@\x7bn\x7d", "none of\nthese"]
    parameters := .ofList [("n", .integer ⟨-12, by decide⟩), ("a: \"b\"", .quoted "#,]")]
    metadata := .ofList [("info", .list [.bool true, .nan, .quoted "a, b"])] }

/-- Such a definition is read back as well. -/
theorem parse_source_awkward
    : awkward.Representable ∧ parse .primary awkward.source = .ok (awkward, []) := by
  have parameters : awkward.parameters.entries
      = [("n", .integer ⟨-12, by decide⟩), ("a: \"b\"", .quoted "#,]")] := rfl
  have metadata : awkward.metadata.entries
      = [("info", .list [.bool true, .nan, .quoted "a, b"])] := rfl
  have representable : awkward.Representable :=
    { parameters := by simp [parameters, Literal.IsPlain, Literal.IsScalar]
      metadata := by simp [metadata, Literal.IsPlain, Literal.IsScalar]
      names := by decide
      statement := isText_of_all rfl rfl
      answer := isText_of_all rfl rfl
      solution := isText_of_all rfl rfl
      choices := by
        refine List.forall_mem_cons.mpr ⟨⟨("@\x7bn\x7d".toList, []), rfl, ?_⟩,
          List.forall_mem_singleton.mpr ⟨("none of".toList, ["these".toList]), rfl, ?_⟩⟩
        · exact ⟨rfl, by decide, by decide, List.forall_mem_nil _⟩
        · refine ⟨rfl, by decide, by decide, List.forall_mem_singleton.mpr ?_⟩
          exact ⟨⟨rfl, by decide, by decide⟩, by decide, by decide, by decide⟩ }
  exact ⟨representable, parse_source representable⟩

end QuizVariants.Definition
