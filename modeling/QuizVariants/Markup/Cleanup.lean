import QuizVariants.Text.Blank
import QuizVariants.Text.Search

/-! Cleanup of display text.
Each rule replaces the leftmost matches of one kind of markup once; nothing is nested, and no
rule looks at its own output.
-/

namespace QuizVariants.Markup

open QuizVariants.Text

/-- Markup from `opening` to the next `closing` on the same line, whose inner text is put between
`before` and `after`. -/
def enclosed (opening closing before after : String) (text : List Char)
    : Option (List Char × List Char) := do
  let rest ← after? opening.toList text
  let (inner, rest) ← breakInLine [closing.toList] rest
  some (before.toList ++ inner ++ after.toList, rest)

/-- A displayed formula, whose text without outer blanks stands on one line, between dollars. -/
def displayed (text : List Char) : Option (List Char × List Char) := do
  let rest ← after? ['\\', '['] text
  let (inner, rest) ← breakOn ['\\', ']'] (trimLeft rest)
  let inner := trimRight inner
  if inner.contains '\n' then none else some ('$' :: inner ++ ['$'], rest)

def bold := enclosed "\\bf\x7b" "\x7d" "<b>" "</b>"

def italic := enclosed "\\it\x7b" "\x7d" "<i>" "</i>"

/-- Underlined text is set in italic type. -/
def underlined := enclosed "\\uline\x7b" "\x7d" "<i>" "</i>"

def centred := enclosed "<center>" "</center>" "<p style=\"text-align:center\">" "</p>"

/-- The rules for all display text, in order. -/
def rules : List (List Char → Option (List Char × List Char)) :=
  [bold, italic, underlined, displayed, centred]

/-- Display text with its markup replaced. -/
def clean (text : List Char) : List Char :=
  rules.foldl (fun text rule => replaceAll rule text) text

end QuizVariants.Markup
