import QuizVariants.Markup.Sigil
import QuizVariants.Section.Primary

/-! Sources with tags.
In the legacy dialect a section starts at a line that holds its name alone, text stands between
tags, and a question may carry a script in front of its text.
-/

namespace QuizVariants.Section

open QuizVariants.Text

/-- The name of a line that opens a section of the legacy dialect, in lower case. -/
def taggedHeader? (line : List Char) : Option String :=
  match String.ofList (trim line) with
  | "Info" => some "info"
  | "Question" => some "question"
  | "Answer" => some "answer"
  | "Solution" => some "solution"
  | _ => none

/-- Whether a text starts with `pattern`, a letter counting the same in either case; gives what
follows. -/
def afterAnyCase? : (pattern text : List Char) → Option (List Char)
  | [], text => some text
  | _ :: _, [] => none
  | p :: pattern, c :: text =>
    if p.toLower = c.toLower then afterAnyCase? pattern text else none

/-- The first place in a text where `tail` accepts what follows, with the text before it. -/
def firstPlace? (tail : List Char → Option α) (before : List Char) : List Char →
    Option (List Char × α)
  | [] => (tail []).map (fun found => (before.reverse, found))
  | c :: rest =>
    match tail (c :: rest) with
    | some found => some (before.reverse, found)
    | none => firstPlace? tail (c :: before) rest

/-- The end of a question's text: a closing tag and the mark of an input field. -/
def questionEnd? (text : List Char) : Option Unit := do
  let rest ← afterAnyCase? "</watex>".toList text
  let _ ← afterAnyCase? "<_>".toList (trimLeft rest)

/-- The end of a question's script, followed by the question's text; gives that text. -/
def scriptEnd? (text : List Char) : Option (List Char) := do
  let rest ← afterAnyCase? "''</eqn>".toList text
  let rest ← afterAnyCase? "<watex>".toList (trimLeft rest)
  let (display, _) ← firstPlace? questionEnd? [] rest
  some display

/-- A question that starts with a script; gives the script and the text. -/
def scriptedQuestion? (text : List Char) : Option (List Char × List Char) := do
  let rest ← afterAnyCase? "<eqn>".toList text
  firstPlace? scriptEnd? [] rest

/-- The text between the first pair of text tags, or the whole text without one. -/
def tagText (text : List Char) : List Char :=
  (do
    let (_, rest) ← breakOn "<watex>".toList text
    let (inner, _) ← breakOn "</watex>".toList rest
    some inner : Option (List Char)).getD text

/-- The script of a question, if it has one, and its text. -/
def splitQuestion (body : List Char) : Option (List Char) × List Char :=
  match firstPlace? scriptedQuestion? [] body with
  | some (_, script, display) => (some script, display)
  | none => (none, tagText body)

/-- The body of a section: its lines, which in a solution run together. -/
def taggedBody (raw : Raw) : List Char :=
  raw.body.flatMap (fun line => if raw.name == "solution" then line else line ++ ['\n'])

def taggedText (text : List Char) : String :=
  .ofList (Markup.cleanTagged text)

/-- The name of the parameter that holds a script. -/
def scriptKey : String := "code"

/-- The sections that a question stands for. -/
def questionSections (body : List Char) : List (String × Content) :=
  match splitQuestion body with
  | (some script, display) =>
    [("parameters", .mapping (Table.ofList [(scriptKey, .quoted (.ofList script))])),
      ("statement", .text (taggedText display))]
  | (none, display) => [("statement", .text (taggedText display))]

/-- The choices that the lines of an answer are. -/
def answerChoices (body : List Char) : List String :=
  ((lines body).filter (fun line => !allBlank line)).map (fun line => taggedText (tagText line))

/-- Reads the body of a section of the legacy dialect into the sections that it stands for. -/
def decodeTagged (name : String) (body : List Char) : List (String × Content) × List Warning :=
  if name == "info" then
    match mapping? body with
    | some entries => ([("info", .mapping entries)], [])
    | none => ([("info", .mapping .empty)], [.malformedInfo])
  else if name == "question" then (questionSections body, [])
  else if name == "answer" then ([("choices", .items (answerChoices body))], [])
  else ([("solution", .text (taggedText (tagText body)))], [])

/-- The sections of the legacy dialect, in the order in which they are read. -/
def taggedNames : List String :=
  ["info", "question", "answer", "solution"]

/-- Reads a source of the legacy dialect. Comments are dropped from every line, and lines that are
left without any character do not count. -/
def readTagged (source : List Char) : Except ParseError (Sections × List Warning) := do
  let kept := (numbered (lines source)).map (fun line => (line.1, before '#' line.2))
  let raws ← split taggedHeader? (kept.filter (fun line => !line.2.isEmpty))
  let read := taggedNames.filterMap (fun name =>
    (raws.find? (fun raw => raw.name == name)).map (fun raw => decodeTagged name (taggedBody raw)))
  return (finish (Table.ofList (read.flatMap Prod.fst)), read.flatMap Prod.snd)

end QuizVariants.Section
