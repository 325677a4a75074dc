import QuizVariants.Text.Search
import QuizVariants.Text.Word

/-! Parsers.
A parser reads from the start of a text and gives what it read with the rest, or the place where
it could not go on. The last of several alternatives decides which place that is.
-/

namespace QuizVariants

open QuizVariants.Text

/-- A parser of `α`; an error is the text that is left where the parser stopped. -/
abbrev Parser := StateT (List Char) (Except (List Char))

namespace Parser

def fail : Parser α :=
  fun text => .error text

/-- Tries a second parser where a first one fails. -/
def orElse (first second : Parser α) : Parser α :=
  fun text =>
    match first text with
    | .ok read => .ok read
    | .error _ => second text

/-- Tries parsers in turn; the last one is not optional. -/
def choice : List (Parser α) → Parser α → Parser α
  | [], last => last
  | first :: more, last => orElse first (choice more last)

def optional (p : Parser α) : Parser (Option α) :=
  fun text =>
    match p text with
    | .ok (value, rest) => .ok (some value, rest)
    | .error _ => .ok (none, text)

/-- Whether a character may stand between two tokens. -/
def isSpace (c : Char) : Bool :=
  c == ' ' || c == '\t' || c == '\r' || c == '\n'

/-- Skips the characters between tokens. -/
def spaces : Parser Unit :=
  fun text => .ok ((), text.dropWhile isSpace)

/-- Reads something with spaces on both sides. -/
def token (p : Parser α) : Parser α := do
  spaces
  let value ← p
  spaces
  return value

def exactText (pattern : List Char) : Parser Unit :=
  fun text =>
    match after? pattern text with
    | some rest => .ok ((), rest)
    | none => .error text

def char (c : Char) : Parser Unit :=
  exactText [c]

def symbol (pattern : String) : Parser Unit :=
  token (exactText pattern.toList)

/-- Reads nothing, in a place where `c` does not follow. -/
def notBefore (c : Char) : Parser Unit :=
  fun text => if text.head? = some c then .error text else .ok ((), text)

/-- Reads with a function that may refuse a text. -/
def ofOption (read : List Char → Option (α × List Char)) : Parser α :=
  fun text =>
    match read text with
    | some (value, rest) => .ok (value, rest)
    | none => .error text

/-- Reads as many times as possible; a parser that takes nothing is not repeated. -/
def manyFrom (p : Parser α) (text : List Char) : List α × List Char :=
  match p text with
  | .error _ => ([], text)
  | .ok (value, rest) =>
    if rest.length < text.length then
      let (values, rest) := manyFrom p rest
      (value :: values, rest)
    else ([], text)
termination_by text.length

/-- Reads as many times as possible, and never fails. -/
def many (p : Parser α) : Parser (List α) :=
  fun text => .ok (manyFrom p text)

/-- Reads with commas in between, and never fails; a comma that nothing follows is left alone. -/
def commaSeparated (p : Parser α) : Parser (List α) :=
  fun text =>
    match p text with
    | .error _ => .ok ([], text)
    | .ok (value, rest) =>
      let (values, rest) := manyFrom (do char ','; p) rest
      .ok (value :: values, rest)

end Parser

end QuizVariants
