import QuizVariants.Literal.Quoted
import QuizVariants.Text.Lines

/-! Comments.
A comment runs from a number sign to the end of its line. In sections of literals a number sign
inside a string is text; only triple-quoted strings go on over several lines.
-/

namespace QuizVariants.Section

open QuizVariants.Literal

/-- An open string: its mark, and whether the mark is tripled. -/
structure OpenString where
  mark : Char
  triple : Bool
  deriving Repr, DecidableEq

/-- The string that stays open at the end of a line. -/
def atLineEnd : Option OpenString → Option OpenString
  | some ⟨mark, true⟩ => some ⟨mark, true⟩
  | _ => none

/-- Keeps a character of a line. -/
def keep (c : Char) (line : List Char × Option OpenString) : List Char × Option OpenString :=
  (c :: line.1, line.2)

/-- The part of a line before its comment, and the string that is open after the line. -/
def scanLine (state : Option OpenString) (line : List Char) : List Char × Option OpenString :=
  match state, line with
  | state, [] => ([], atLineEnd state)
  | some ⟨mark, true⟩, c :: d :: e :: rest =>
    if c = mark ∧ d = mark ∧ e = mark then keep c (keep d (keep e (scanLine none rest)))
    else keep c (scanLine (some ⟨mark, true⟩) (d :: e :: rest))
  | some ⟨mark, true⟩, c :: rest => keep c (scanLine (some ⟨mark, true⟩) rest)
  | some ⟨mark, false⟩, '\\' :: c :: rest =>
    keep '\\' (keep c (scanLine (some ⟨mark, false⟩) rest))
  | some ⟨mark, false⟩, c :: rest =>
    if c = mark then keep c (scanLine none rest)
    else keep c (scanLine (some ⟨mark, false⟩) rest)
  | none, c :: d :: e :: rest =>
    if c = '#' then ([], none)
    else if isQuote c then
      if d = c ∧ e = c then keep c (keep d (keep e (scanLine (some ⟨c, true⟩) rest)))
      else keep c (scanLine (some ⟨c, false⟩) (d :: e :: rest))
    else keep c (scanLine none (d :: e :: rest))
  | none, c :: rest =>
    if c = '#' then ([], none)
    else if isQuote c then keep c (scanLine (some ⟨c, false⟩) rest)
    else keep c (scanLine none rest)
termination_by line.length

/-- The parts of the lines before their comments, strings being tracked from line to line. -/
def literalLines (state : Option OpenString) : List (List Char) → List (List Char)
  | [] => []
  | line :: rest =>
    let (kept, state) := scanLine state line
    kept :: literalLines state rest

/-- The parts of the lines before their first number sign. -/
def plainLines (lines : List (List Char)) : List (List Char) :=
  lines.map (Text.before '#')

end QuizVariants.Section
