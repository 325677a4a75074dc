import QuizVariants.Problem.Definition

/-! Sources of definitions.
A definition is written under section headers, one entry or choice a line.
-/

namespace QuizVariants.Definition

open QuizVariants.Text

/-- The name of an entry, in quotes unless it is an identifier. -/
def keySource (key : String) : String :=
  if isName key.toList then key else .ofList (Literal.quote key.toList)

/-- A section of entries, left out when there are none. -/
def mappingSource (name : String) (entries : List (String × Literal)) : String :=
  if entries.isEmpty then ""
  else
    s!"<<{name}>>\n" ++ String.join (entries.map (fun entry =>
      s!"{keySource entry.1}: {entry.2.source}\n"))

/-- A section of display text, left out when there is none. -/
def textSource (name text : String) : String :=
  if text == "" then "" else s!"<<{name}>>\n{text}\n"

/-- A section of choices, left out when there are none. -/
def choicesSource (choices : List String) : String :=
  if choices.isEmpty then ""
  else "<<choices>>\n" ++ String.join (choices.map (fun choice => s!"- {choice}\n"))

/-- An entry for a text, left out when the text is empty. -/
def textEntry (key text : String) : List (String × Literal) :=
  if text == "" then [] else [(key, .quoted text)]

/-- An entry for a list of texts, left out when the list is empty. -/
def listEntry (key : String) (texts : List String) : List (String × Literal) :=
  if texts.isEmpty then [] else [(key, .list (texts.map .quoted))]

def infoEntries (definition : Definition) : List (String × Literal) :=
  textEntry "id" definition.problemId ++ textEntry "title" definition.title
    ++ textEntry "solution_title" definition.solutionTitle ++ listEntry "tags" definition.tags
    ++ definition.metadata.entries

def source (definition : Definition) : String :=
  mappingSource "info" definition.infoEntries
    ++ mappingSource "parameters" definition.parameters.entries
    ++ textSource "statement" definition.statement
    ++ textSource "answer" definition.answer
    ++ textSource "solution" definition.solution
    ++ choicesSource definition.choices

end QuizVariants.Definition
