import QuizVariants.Literal.Quoted

/-! Parts of a list.
The parts of a list are divided by the commas that stand outside of quotes and brackets.
-/

namespace QuizVariants.Literal

def opensBracket (c : Char) : Bool :=
  c == '[' || c == '(' || c == '{'

def closesBracket (c : Char) : Bool :=
  c == ']' || c == ')' || c == '}'

/-- Where a scan of a list stands: the number of open brackets, which is negative after
superfluous closing ones, the open quote, and whether the next character is escaped. -/
structure Place where
  /-- A half word holds this number wherever a text has fewer than `2 ^ 31` characters, as it never
  exceeds the number of characters that were scanned. -/
  depth : Int
  mark : Option Char
  escaped : Bool
  deriving Repr, DecidableEq

/-- The place before the first character and after each dividing comma. -/
def Place.start : Place :=
  ⟨0, none, false⟩

/-- The place after a character. -/
def Place.step (place : Place) (c : Char) : Place :=
  match place.mark with
  | some mark =>
    if place.escaped then { place with escaped := false }
    else if c = '\\' then { place with escaped := true }
    else if c = mark then { place with mark := none }
    else place
  | none =>
    if isQuote c then { place with mark := some c }
    else if opensBracket c then { place with depth := place.depth + 1 }
    else if closesBracket c then { place with depth := place.depth - 1 }
    else place

/-- Whether a character divides two parts. -/
def Place.divides (place : Place) (c : Char) : Bool :=
  c == ',' && place.mark.isNone && place.depth == 0

/-- Whether a list may end here. -/
def Place.closed (place : Place) : Bool :=
  place.mark.isNone && place.depth == 0

/-- The parts of a list from a place on, where `part` is the current part in reverse. -/
def partsFrom (place : Place) (part : List Char) : List Char → Option (List (List Char))
  | [] => if place.closed then some [part.reverse] else none
  | c :: rest =>
    if place.divides c then (partsFrom place [] rest).map (part.reverse :: ·)
    else partsFrom (place.step c) (c :: part) rest

/-- The parts of a list, unless a quote or a bracket in it stays open. -/
def parts? (text : List Char) : Option (List (List Char)) :=
  partsFrom .start [] text

end QuizVariants.Literal
