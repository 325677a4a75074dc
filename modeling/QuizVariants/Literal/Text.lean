import QuizVariants.Json
import QuizVariants.Literal.Basic
import QuizVariants.Literal.Quoted
import QuizVariants.Value.Text

/-! Texts of literals.
A literal has a source form, which reads back as itself, a plain text, and a JSON document.
-/

namespace QuizVariants.Literal

open QuizVariants.Decimal

/-- Floats in sources keep a point and change to an exponent from `1e16` on and below `1e-4`. -/
def floatLayout : Layout :=
  { tie := .up
    positional := fun power => -4 ≤ power && power < 16
    pointed := fun _ => true
    signedExponent := false
    nan := "NaN" }

mutual

def source : Literal → String
  | .integer value => .ofList (Rational.integerText value.toInt)
  | .float value => floatLayout.write value
  | .bool value => Value.boolText value
  | .nan => "nan"
  | .quoted text => .ofList (quote text.toList)
  | .list items => "[" ++ String.intercalate ", " (sources items) ++ "]"
  | .verbatim text => text

def sources : List Literal → List String
  | [] => []
  | item :: items => source item :: sources items

end

/-- The plain text of a literal: a string without quotes, or the source form. -/
def text (literal : Literal) : String :=
  (string? literal).getD literal.source

/-- The expression that a parameter with this literal evaluates. -/
def expression (literal : Literal) : String :=
  literal.text

mutual

def toJson : Literal → Json
  | .integer value => .integer value.toInt
  | .float value => .float value
  | .bool value => .bool value
  | .nan => .null
  | .quoted text => .string text
  | .list items => .array (toJsonItems items)
  | .verbatim text => .string text

def toJsonItems : List Literal → List Json
  | [] => []
  | item :: items => toJson item :: toJsonItems items

end

end QuizVariants.Literal
