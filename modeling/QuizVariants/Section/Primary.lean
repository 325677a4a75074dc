import QuizVariants.Markup.Cleanup
import QuizVariants.ParseError
import QuizVariants.Section.Comment
import QuizVariants.Section.Content
import QuizVariants.Section.Mapping
import QuizVariants.Warning

/-! Sources with section headers.
A header is a name between double angle brackets on a line of its own; the lines up to the next
header are the body of its section, and lines before the first header do not count. Each body is
read on its own, and a malformed one counts as empty.
-/

namespace QuizVariants.Section

open QuizVariants.Text

/-- The name of a header line, in lower case. -/
def header? (line : List Char) : Option String := do
  let rest ← after? ['<', '<'] (trimLeft line)
  let rest := trimLeft rest
  let name := rest.takeWhile isLetter
  let rest ← after? ['>', '>'] (trimLeft (rest.dropWhile isLetter))
  match trimLeft rest with
  | [] | '#' :: _ => if name.isEmpty then none else some (.ofList (name.map Char.toLower))
  | _ => none

/-- A section as it stands in a source: the name and the line of its header, and the lines of its
body. -/
structure Raw where
  name : String
  line : Nat
  body : List (List Char)
  deriving Repr, DecidableEq

/-- The sections that start in a list of numbered lines, with the lines before the first header. -/
def rawFrom (name? : List Char → Option String)
    : List (Nat × List Char) → List (List Char) × List Raw
  | [] => ([], [])
  | (number, line) :: rest =>
    let (body, sections) := rawFrom name? rest
    match name? line with
    | some name => ([], ⟨name, number, body⟩ :: sections)
    | none => (line :: body, sections)

/-- The first section whose name an earlier one has. -/
def repeated? (seen : List String) : List Raw → Option Raw
  | [] => none
  | raw :: rest =>
    if seen.contains raw.name then some raw else repeated? (raw.name :: seen) rest

/-- The sections of numbered lines, under distinct names. -/
def split (name? : List Char → Option String) (lines : List (Nat × List Char))
    : Except ParseError (List Raw) :=
  let sections := (rawFrom name? lines).2
  match repeated? [] sections with
  | some raw => .error (.duplicateSection raw.name raw.line)
  | none => .ok sections

/-- Whether a number sign inside a string of the section is text. -/
def holdsLiterals (name : String) : Bool :=
  name == "parameters" || name == "info"

/-- The body of a section without comments and without lines that show nothing. -/
def Raw.text (raw : Raw) : List Char :=
  let lines := if holdsLiterals raw.name then literalLines none raw.body else plainLines raw.body
  (lines.filter (fun line => !allBlank line)).flatMap (fun line => trimRight line ++ ['\n'])

/-- The lines of a body on one line, without blanks around them. -/
def flatten (body : List Char) : List Char :=
  joinWith [' '] (shownLines body)

/-- Adds a line to items held in reverse: a dash starts an item, any other line goes on with the
last one. -/
def addItemLine (items : List (List Char)) (line : List Char) : Option (List (List Char)) :=
  match line, items with
  | '-' :: item, items => some (trim item :: items)
  | line, last :: items => some ((last ++ '\n' :: line) :: items)
  | _, [] => none

/-- The items of a body, unless its first line has no dash. -/
def items? (body : List Char) : Option (List String) :=
  ((shownLines body).foldlM addItemLine []).map (fun items => items.reverse.map .ofList)

/-- Reads the body of a section by the section's name. -/
def decode (name : String) (body : List Char) : Content × List Warning :=
  if holdsLiterals name then
    match mapping? body with
    | some entries => (.mapping entries, [])
    | none => (.mapping .empty, [.malformedMapping name])
  else if name == "statement" || name == "answer" || name == "solution" then
    (.text (.ofList (Markup.clean (flatten body))), [])
  else if name == "choices" then
    match items? body with
    | some items => (.items items, [])
    | none => (.items [""], [.missingDash name])
  else (.value (Literal.decodeChars body), [])

def readPrimary (source : List Char) : Except ParseError (Sections × List Warning) := do
  let raws ← split header? (numbered (lines source))
  let read := raws.map (fun raw => (raw.name, decode raw.name raw.text))
  let sections := Table.ofList (read.map (fun entry => (entry.1, entry.2.1)))
  return (finish sections, read.flatMap (fun entry => entry.2.2))

end QuizVariants.Section
