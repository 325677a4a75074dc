import QuizVariants.Literal.Reader
import QuizVariants.Table
import QuizVariants.Text.Lines
import QuizVariants.Text.Word

/-! Entries of a section.
An entry is a name, a colon and a literal on one line; a triple-quoted literal goes on to the line
that closes it. Braces around all entries and a comma after each of them do not count.
-/

namespace QuizVariants.Section

open QuizVariants.Text
open QuizVariants.Literal (isQuote unquote triple)

/-- The lines of a text that show something, without blanks at either end. -/
def shownLines (text : List Char) : List (List Char) :=
  ((lines text).map trim).filter (fun line => !line.isEmpty)

/-- The text inside a pair of braces, or the whole text without one. -/
def insideBraces (text : List Char) : List Char :=
  ((after? ['{'] text).bind (before? ['}'])).getD text

/-- A quoted name in front of a colon, with what follows the colon. -/
def quotedKey? : List Char → Option (List Char × List Char)
  | [] => none
  | mark :: rest =>
    if isQuote mark then do
      let (key, rest) ← unquote mark rest
      let rest ← after? [':'] (trimLeft rest)
      some (key, rest)
    else none

/-- The name of an entry, with what follows the colon. -/
def key? (line : List Char) : Option (List Char × List Char) :=
  match name? line with
  | some (name, rest) => (after? [':'] (trimLeft rest)).map (fun rest => (name, rest))
  | none => quotedKey? line

/-- The mark whose triple starts a text. -/
def tripleMark? (text : List Char) : Option Char :=
  ['"', '\''].find? (fun mark => (after? (triple mark) text).isSome)

/-- The number of bytes of a text. -/
def byteCount (text : List Char) : Nat :=
  text.foldl (fun count c => count + c.utf8Size) 0

/-- Whether a triple-quoted text is closed; commas after the closing marks do not count. -/
def closesTriple (mark : Char) (text : List Char) : Bool :=
  let ending := trimLeft (text.reverse.dropWhile (· == ','))
  6 ≤ byteCount text && (after? (triple mark) ending).isSome

/-- Adds lines to a triple-quoted text until it is closed; gives the lines that are left. -/
def closeTriple (mark : Char) (text : List Char) : List (List Char) →
    Option (List Char × List (List Char))
  | [] => if closesTriple mark text then some (text, []) else none
  | line :: rest =>
    if closesTriple mark text then some (text, line :: rest)
    else closeTriple mark (text ++ '\n' :: line) rest

/-- Closing a text takes lines and adds none. -/
theorem length_of_closeTriple {mark : Char} {text value : List Char}
    {lines rest : List (List Char)} (h : closeTriple mark text lines = some (value, rest))
    : rest.length ≤ lines.length := by
  induction lines generalizing text with
  | nil =>
    simp only [closeTriple] at h
    split at h <;> simp_all
  | cons line lines ih =>
    simp only [closeTriple] at h
    split at h
    · simp only [Option.some.injEq, Prod.mk.injEq] at h
      simp [← h.2]
    · exact Nat.le_succ_of_le (ih h)

/-- The text of a value that starts on an entry's line, with the lines after it. -/
def valueLines (text : List Char) (rest : List (List Char))
    : Option (List Char × List (List Char)) :=
  match tripleMark? text with
  | some mark => closeTriple mark text rest
  | none => some (text, rest)

theorem length_of_valueLines {text value : List Char} {lines rest : List (List Char)}
    (h : valueLines text lines = some (value, rest))
    : rest.length ≤ lines.length := by
  unfold valueLines at h
  split at h
  · exact length_of_closeTriple h
  · simp only [Option.some.injEq, Prod.mk.injEq] at h
    simp [h.2]

/-- A value without the comma after it. -/
def dropComma (text : List Char) : List Char :=
  match before? [','] text with
  | some text => trimRight text
  | none => text

/-- The entries that lines hold; none when one of the lines is malformed. -/
def entriesOf : List (List Char) → Option (List (String × Literal))
  | [] => some []
  | line :: lines =>
    match key? line with
    | none => none
    | some (key, text) =>
      match h : valueLines (trim text) lines with
      | none => none
      | some (value, rest) =>
        have : rest.length ≤ lines.length := length_of_valueLines h
        (entriesOf rest).map ((.ofList key, Literal.decodeChars (dropComma value)) :: ·)
termination_by lines => lines.length

/-- The entries of a section's body. -/
def mapping? (body : List Char) : Option (Table Literal) :=
  (entriesOf (shownLines (insideBraces (trim body)))).map Table.ofList

end QuizVariants.Section
