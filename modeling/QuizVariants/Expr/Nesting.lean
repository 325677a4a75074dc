import QuizVariants.Text.Blank
import QuizVariants.Literal.Parts

/-! Depth of nesting.
The depth of a text bounds how deep its reader descends: open brackets, the signs in a row, and
the powers seen so far add up. Strings do not count.
-/

namespace QuizVariants.Expr

open QuizVariants.Text
open QuizVariants.Literal (isQuote opensBracket closesBracket)

/-- What has been counted up to a place of a text. -/
structure Nesting where
  brackets : Nat
  signs : Nat
  powers : Nat
  deepest : Nat
  mark : Option Char
  escaped : Bool
  previous : Char
  deriving Repr, DecidableEq

/-- Nothing is counted before the first character. -/
def Nesting.start : Nesting :=
  ⟨0, 0, 0, 0, none, false, ' '⟩

/-- Counts a character inside a string, which ends at the next mark that is not escaped. -/
def Nesting.stepInside (n : Nesting) (mark c : Char) : Nesting :=
  if n.escaped then { n with escaped := false }
  else if c = '\\' then { n with escaped := true }
  else if c = mark then { n with mark := none }
  else n

def Nesting.stepOutside (n : Nesting) (c : Char) : Nesting :=
  let brackets :=
    if opensBracket c then n.brackets + 1
    else if closesBracket c then n.brackets - 1
    else n.brackets
  let powers :=
    if c = '^' ∨ (c = '*' ∧ n.previous = '*') then n.powers + 1 else n.powers
  let signs :=
    if c = '+' ∨ c = '-' then n.signs + 1 else if isBlank c then n.signs else 0
  { brackets, signs, powers
    deepest := max n.deepest (brackets + signs + powers)
    mark := if isQuote c then some c else none
    escaped := n.escaped
    previous := c }

def Nesting.step (n : Nesting) (c : Char) : Nesting :=
  match n.mark with
  | some mark => n.stepInside mark c
  | none => n.stepOutside c

def nestingDepth (text : List Char) : Nat :=
  (text.foldl Nesting.step .start).deepest

/-- The greatest depth that is read. -/
def maxNesting : Nat := 64

end QuizVariants.Expr
