import QuizVariants.Section.Tagged

/-! Definitions of problems.
A definition is what an author wrote: texts with placeholders, choices, and parameters in the
order of their declaration.
-/

namespace QuizVariants

open QuizVariants.Text

/-- A problem as its author wrote it. -/
structure Definition where
  problemId : String := ""
  title : String := ""
  tags : List String := []
  statement : String := ""
  answer : String := ""
  solution : String := ""
  solutionTitle : String := ""
  /-- The choices, the correct one first. -/
  choices : List String := []
  /-- The expression of each parameter, in the order of declaration. -/
  parameters : Table Literal := .empty
  /-- What the author declared beyond the fields above. -/
  metadata : Table Literal := .empty
  deriving DecidableEq, Inhabited

/-- The dialect in which a source is written. -/
inductive Dialect where
  /-- Sections under headers in double angle brackets. -/
  | primary
  /-- Sections under bare names, with tags. -/
  | legacy
  deriving Repr, DecidableEq

namespace Definition

/-- What a definition carries. -/
structure Kind where
  parameterized : Bool
  scripted : Bool
  multipleChoice : Bool
  withSolution : Bool
  deriving Repr, DecidableEq

/-- Whether the parameters are computed by a script. -/
def isScripted (definition : Definition) : Bool :=
  definition.parameters.contains Section.scriptKey

def kind (definition : Definition) : Kind :=
  { parameterized := !definition.parameters.isEmpty
    scripted := definition.isScripted
    multipleChoice := !definition.choices.isEmpty
    withSolution := definition.solution != "" }

/-- Tags are a list, or one text with commas between them. -/
def tagsOf : Literal → List String
  | .list items => items.map Literal.text
  | literal =>
    ((splitAt ',' literal.text.toList).map trim).filterMap (fun tag =>
      if tag.isEmpty then none else some (.ofList tag))

/-- Choices given as a literal: the items of a list, or a single choice. -/
def choicesOf : Literal → List String
  | .list items => items.map Literal.text
  | literal => [literal.text]

/-- Takes in the content of a section. A literal under a name without a field of its own is kept
aside, and any other content without a field is dropped. -/
def take (definition : Definition) (name : String) (content : Section.Content) : Definition :=
  match name, content with
  | "problem_id", .value literal => { definition with problemId := literal.text }
  | "title", .value literal => { definition with title := literal.text }
  | "solution_title", .value literal => { definition with solutionTitle := literal.text }
  | "tags", .value literal => { definition with tags := tagsOf literal }
  | "statement", .text shown => { definition with statement := shown }
  | "answer", .text shown => { definition with answer := shown }
  | "solution", .text shown => { definition with solution := shown }
  | "choices", .items shown => { definition with choices := shown }
  | "statement", .value literal => { definition with statement := literal.text }
  | "answer", .value literal => { definition with answer := literal.text }
  | "solution", .value literal => { definition with solution := literal.text }
  | "choices", .value literal => { definition with choices := choicesOf literal }
  | "parameters", .mapping table => { definition with parameters := table }
  | name, .value literal => { definition with metadata := definition.metadata.insert name literal }
  | _, _ => definition

def ofSections (sections : Sections) : Definition :=
  sections.entries.foldl (fun definition entry => definition.take entry.1 entry.2) {}

def readSections (dialect : Dialect) (source : List Char)
    : Except ParseError (Sections × List Warning) :=
  match dialect with
  | .primary => Section.readPrimary source
  | .legacy => Section.readTagged source

/-- Reads a source; gives the definition and what went wrong on the way. -/
def parse (dialect : Dialect) (source : String)
    : Except ParseError (Definition × List Warning) := do
  let (sections, warnings) ← readSections dialect source.toList
  return (ofSections sections, warnings)

/-- Reads a source given as bytes. -/
def parseBytes (dialect : Dialect) (bytes : List Nat)
    : Except ParseError (Definition × List Warning) := do
  let source ← (decodeUtf8 bytes).mapError .notText
  parse dialect (.ofList source)

/-- Equality of definitions; the order of parameters and metadata does not count. -/
def same (a b : Definition) : Bool :=
  a.problemId == b.problemId && a.title == b.title && a.tags == b.tags
    && a.statement == b.statement && a.answer == b.answer && a.solution == b.solution
    && a.solutionTitle == b.solutionTitle && a.choices == b.choices
    && a.parameters.alike Literal.same b.parameters && a.metadata.alike Literal.same b.metadata

def toJson (definition : Definition) : Json :=
  .object
    [ ("problem_id", .string definition.problemId),
      ("title", .string definition.title),
      ("tags", .strings definition.tags),
      ("statement", .string definition.statement),
      ("answer", .string definition.answer),
      ("solution", .string definition.solution),
      ("solution_title", .string definition.solutionTitle),
      ("choices", .strings definition.choices),
      ("parameters", .ofEntries Literal.toJson definition.parameters.entries),
      ("metadata", .ofEntries Literal.toJson definition.metadata.entries) ]

end Definition

end QuizVariants
