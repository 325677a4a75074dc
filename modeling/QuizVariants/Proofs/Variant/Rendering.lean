import QuizVariants.Proofs.Template.Substitution
import QuizVariants.Variant.Instantiation

/-! Rendered variants.
A variant is filled in text by text, and the placeholders of all its texts are evaluated in one row.
With choices the answer is the text of the first one, and what the author wrote as the answer is
not evaluated.
-/

namespace QuizVariants

open QuizVariants.Random
open QuizVariants.Template (Rendered substitute failures)

-----------------------------------------------------------------------------------------
-- Several texts in a row
-----------------------------------------------------------------------------------------

/-- The placeholders of several texts, in order. -/
def placeholdersOf (texts : List String) : List String :=
  texts.flatMap (fun text => (Template.compile text).sources)

theorem run_mapM_substitute_cons (scope : Scope) (text : String) (rest : List String)
    (draws : Draws)
    : let first := (substitute scope text).run draws
      let others := (rest.mapM (substitute scope)).run first.2
      ((text :: rest).mapM (substitute scope)).run draws = (first.1 :: others.1, others.2) := by
  rw [List.mapM_cons]
  rfl

theorem length_mapM_substitute (scope : Scope) (texts : List String) (draws : Draws)
    : ((texts.mapM (substitute scope)).run draws).1.length = texts.length := by
  induction texts generalizing draws with
  | nil => rfl
  | cons text rest ih => rw [run_mapM_substitute_cons, List.length_cons, ih, List.length_cons]

/-- Texts that are rendered in a row evaluate their placeholders in a row and nothing else, and
those without a value are unresolved; by induction on the texts. -/
theorem run_mapM_substitute (scope : Scope) (texts : List String) (draws : Draws)
    : let evaluated := (scope.evaluateAll (placeholdersOf texts)).run draws
      let rendered := (texts.mapM (substitute scope)).run draws
      rendered.2 = evaluated.2
      ∧ rendered.1.flatMap Rendered.unresolved
        = failures (placeholdersOf texts) evaluated.1 := by
  induction texts generalizing draws with
  | nil => exact ⟨rfl, rfl⟩
  | cons text rest ih =>
      have split : placeholdersOf (text :: rest)
          = (Template.compile text).sources ++ placeholdersOf rest :=
        List.flatMap_cons
      have length := scope.length_evaluateAll (Template.compile text).sources draws
      obtain ⟨left, unresolved⟩ :=
        ih ((scope.evaluateAll (Template.compile text).sources).run draws).2
      simp only [run_mapM_substitute_cons, substitute, Template.run_render, split,
        Scope.run_evaluateAll_append, List.flatMap_cons, Template.failures_append length]
      exact ⟨left, congrArg _ unresolved⟩

-----------------------------------------------------------------------------------------
-- The texts of a variant
-----------------------------------------------------------------------------------------

/-- Choices are rendered one after the other, by induction on them. -/
theorem Plan.renderChoices_compile (scope : Scope) (choices : List String)
    : renderChoices scope (choices.map Template.compile) = choices.mapM (substitute scope) := by
  induction choices with
  | nil => rfl
  | cons choice rest ih =>
      rw [List.mapM_cons, ← ih]
      rfl

namespace Definition

/-- The texts of a definition that are rendered, in order: the answer is one of them only where
there are no choices. -/
def renderedTexts (definition : Definition) : List String :=
  definition.statement :: definition.solution :: definition.choices
    ++ (if definition.choices.isEmpty then [definition.answer] else [])

/-- An instantiation renders the statement, the solution, the choices and then the answer, each on
the draws that the one before it leaves. -/
theorem run_instantiate (definition : Definition) (context : Context) (draws : Draws)
    : let resolved := ((Plan.ofDefinition definition).resolve context).run draws
      let scope : Scope := ⟨resolved.1.values, context⟩
      let statement := (substitute scope definition.statement).run resolved.2
      let solution := (substitute scope definition.solution).run statement.2
      let choices := (definition.choices.mapM (substitute scope)).run solution.2
      let answer :=
        (Plan.renderAnswer scope (Template.compile definition.answer) choices.1).run choices.2
      let rendered := statement.1 :: solution.1 :: choices.1 ++ [answer.1]
      (definition.instantiate context).run draws
        = ({ variant := {
              id := definition.problemId
              title := definition.title
              tags := definition.tags
              statement := statement.1.text
              answer := answer.1.text
              solution := solution.1.text
              solutionTitle := definition.solutionTitle
              choices := choices.1.map Rendered.text }
             values := resolved.1.values
             absent := resolved.1.absent
             unresolved := (rendered.flatMap Rendered.unresolved).length
             warnings := resolved.1.warnings ++ rendered.flatMap Rendered.warnings },
          answer.2) := by
  intro resolved scope statement solution choices answer rendered
  have same : choices
      = (Plan.renderChoices scope (definition.choices.map Template.compile)).run solution.2 := by
    rw [Plan.renderChoices_compile]
  simp only [rendered, answer, same]
  rfl

theorem length_choices (definition : Definition) (context : Context) (draws : Draws)
    : ((definition.instantiate context).run draws).1.variant.choices.length
      = definition.choices.length := by
  simp only [run_instantiate, List.length_map, length_mapM_substitute]

/-- With choices the answer is the text of the first one. -/
theorem head?_choices {definition : Definition} (given : definition.choices ≠ [])
    (context : Context) (draws : Draws)
    : let variant := ((definition.instantiate context).run draws).1.variant
      variant.choices.head? = some variant.answer := by
  obtain ⟨first, rest, split⟩ := List.exists_cons_of_ne_nil given
  simp only [run_instantiate, split, run_mapM_substitute_cons]
  rfl

/-- An answer that is taken from a choice leaves nothing unresolved and draws nothing, by cases on
whether there are choices. -/
theorem run_renderedTexts (definition : Definition) (scope : Scope) (draws : Draws)
    : let statement := (substitute scope definition.statement).run draws
      let solution := (substitute scope definition.solution).run statement.2
      let choices := (definition.choices.mapM (substitute scope)).run solution.2
      let answer :=
        (Plan.renderAnswer scope (Template.compile definition.answer) choices.1).run choices.2
      let rendered := (definition.renderedTexts.mapM (substitute scope)).run draws
      rendered.2 = answer.2
      ∧ rendered.1.flatMap Rendered.unresolved
        = (statement.1 :: solution.1 :: choices.1 ++ [answer.1]).flatMap Rendered.unresolved := by
  cases given : definition.choices with
  | nil =>
      have texts : definition.renderedTexts
          = [definition.statement, definition.solution, definition.answer] := by
        simp [renderedTexts, given]
      rw [texts]
      exact ⟨rfl, rfl⟩
  | cons first rest =>
      have texts : definition.renderedTexts
          = definition.statement :: definition.solution :: first :: rest := by
        simp [renderedTexts, given]
      simp only [texts, run_mapM_substitute_cons, Plan.renderAnswer, run_pure,
        List.flatMap_append, List.flatMap_cons, List.flatMap_nil, List.append_nil,
        List.cons_append]
      trivial

/-- An instantiation renders each text once.
The statement, the solution and the choices of a variant are the renderings of their templates with
the resolved values, in order. With choices the answer is the text of the first one, whatever that
drew, and without choices it is rendered from its own template. All draws after the parameters go
to the placeholders of the rendered texts, each of them evaluated once, and those that fail are
counted. Everything else of the variant is the author's.
-/
theorem instantiate_renders (definition : Definition) (context : Context) (draws : Draws)
    : let resolved := ((Plan.ofDefinition definition).resolve context).run draws
      let scope : Scope := ⟨resolved.1.values, context⟩
      let statement := (substitute scope definition.statement).run resolved.2
      let solution := (substitute scope definition.solution).run statement.2
      let choices := (definition.choices.mapM (substitute scope)).run solution.2
      let answer := (substitute scope definition.answer).run choices.2
      let evaluated :=
        (scope.evaluateAll (placeholdersOf definition.renderedTexts)).run resolved.2
      let made := (definition.instantiate context).run draws
      let variant := made.1.variant
      made.1.values = resolved.1.values
      ∧ variant.statement = statement.1.text
      ∧ variant.solution = solution.1.text
      ∧ variant.choices = choices.1.map Rendered.text
      ∧ variant.choices.length = definition.choices.length
      ∧ (definition.choices ≠ [] → variant.choices.head? = some variant.answer)
      ∧ (definition.choices = [] → variant.answer = answer.1.text)
      ∧ made.2 = evaluated.2
      ∧ made.1.unresolved = evaluated.1.countP (fun result => !result.isOk)
      ∧ (variant.id = definition.problemId
        ∧ variant.title = definition.title
        ∧ variant.tags = definition.tags
        ∧ variant.solutionTitle = definition.solutionTitle) := by
  intro resolved scope statement solution choices answer evaluated made variant
  obtain ⟨texts, unresolved⟩ := definition.run_renderedTexts scope resolved.2
  obtain ⟨left, failed⟩ := run_mapM_substitute scope definition.renderedTexts resolved.2
  have length := scope.length_evaluateAll (placeholdersOf definition.renderedTexts) resolved.2
  have run : made = _ := definition.run_instantiate context draws
  have alone : definition.choices = [] → variant.answer = answer.1.text := by
    intro none
    simp only [variant, run, answer, choices, none]
    rfl
  have unresolved : made.1.unresolved = evaluated.1.countP (fun result => !result.isOk) := by
    rw [← Template.length_failures length, ← failed, unresolved, run]
  have rest : made.2 = evaluated.2 := by
    rw [← left, texts, run]
  have field {α : Type} (read : Instantiation → α) : read made.1 = read _ :=
    congrArg (fun result => read result.1) run
  refine ⟨field (·.values), field (·.variant.statement), field (·.variant.solution),
    field (·.variant.choices), definition.length_choices context draws,
    fun given => head?_choices given context draws, alone, rest, unresolved, field (·.variant.id),
    field (·.variant.title), field (·.variant.tags), field (·.variant.solutionTitle)⟩

end Definition

end QuizVariants
