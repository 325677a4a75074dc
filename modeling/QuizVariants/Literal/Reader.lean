import QuizVariants.Decimal.Numeral
import QuizVariants.Literal.Basic
import QuizVariants.Literal.Parts
import QuizVariants.Text.Blank
import QuizVariants.Text.Search

/-! Reading literals.
Reading never fails: a text that is no number, keyword, string or list is kept verbatim.
-/

namespace QuizVariants.Literal

open QuizVariants.Text
open QuizVariants.Decimal

/-- Splits off a sign; tells whether it is a minus. -/
def sign : List Char → Bool × List Char
  | '-' :: rest => (true, rest)
  | '+' :: rest => (false, rest)
  | text => (false, text)

/-- A number: an integer that fits in a word, or a float. A run of digits alone may exceed the
range of floats, any other numeral may not. -/
def readNumber? (text : List Char) : Option Literal :=
  let (negative, size) := sign text
  match Numeral.read? size with
  | some (numeral, []) =>
    let value := withSign negative numeral.toFloat
    match numeral.natural? with
    | some n =>
      match Word.ofInt? (signed negative n) with
      | some word => some (.integer word)
      | none => some (.float value)
    | none => if value.isFinite then some (.float value) else none
  | _ => none

/-- A keyword: a truth value or what is not a number. -/
def readKeyword? (text : List Char) : Option Literal :=
  match String.ofList text with
  | "True" | "true" => some (.bool true)
  | "False" | "false" => some (.bool false)
  | "nan" | "NaN" => some .nan
  | _ => none

def triple (mark : Char) : List Char :=
  [mark, mark, mark]

/-- The text between two triple marks that do not share a character. -/
def betweenTriples? (mark : Char) (text : List Char) : Option (List Char) := do
  let rest ← after? (triple mark) text
  before? (triple mark) rest

/-- A string in triple quotes, taken as it stands unless it holds a triple quote itself. -/
def tripleQuoted? (mark : Char) (inner : List Char) : Option Literal :=
  if occurs (triple mark) inner then none else some (.quoted (.ofList inner))

def singleQuoted? : List Char → Option Literal
  | [] => none
  | mark :: rest =>
    if isQuote mark then
      match unquote mark rest with
      | some (content, []) => some (.quoted (.ofList content))
      | _ => none
    else none

def readString? (text : List Char) : Option Literal :=
  match betweenTriples? '"' text, betweenTriples? '\'' text with
  | some inner, _ => tripleQuoted? '"' inner
  | none, some inner => tripleQuoted? '\'' inner
  | none, none => singleQuoted? text

def scalar? (text : List Char) : Option Literal :=
  readNumber? text <|> readKeyword? text <|> readString? text

/-- The item that a part of a list stands for. -/
def item (part : List Char) : Literal :=
  (scalar? part).getD (.verbatim (.ofList part))

/-- The items of a list; only the last part may be blank, and then it is no item. -/
def items? : List (List Char) → Option (List Literal)
  | [] => some []
  | [part] =>
    let part := trim part
    if part.isEmpty then some [] else some [item part]
  | part :: parts =>
    let part := trim part
    if part.isEmpty then none else (items? parts).map (item part :: ·)

def readList? (text : List Char) : Option Literal := do
  let rest ← after? ['['] text
  let inner ← before? [']'] rest
  let parts ← parts? inner
  let items ← items? parts
  some (.list items)

/-- The literal of a text that does not start or end with a blank. -/
def ofTrimmed (text : List Char) : Literal :=
  (scalar? text <|> readList? text).getD (.verbatim (.ofList text))

/-- The literal of a text, whose outer blanks do not count. -/
def decodeChars (text : List Char) : Literal :=
  ofTrimmed (trim text)

def decode (text : String) : Literal :=
  decodeChars text.toList

end QuizVariants.Literal
