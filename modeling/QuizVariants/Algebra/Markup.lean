import QuizVariants.Decimal.Numeral
import QuizVariants.Value.Text

/-! Mathematical markup of values.
Templates show a value as markup; strings are shown as they stand.
-/

namespace QuizVariants.Algebra

open QuizVariants.Decimal

def braced (text : String) : String :=
  "\x7b" ++ text ++ "\x7d"

def fraction (top bottom : String) : String :=
  "\\frac" ++ braced top ++ braced bottom

def integerMarkup (n : Int) : String :=
  .ofList (Rational.integerText n)

/-- A fraction; its sign stands in front of it. -/
def rationalMarkup (r : Rational) : String :=
  if r.isInteger then integerMarkup r.num
  else if r.isNegative then "- " ++ fraction (integerMarkup (-r.num)) (integerMarkup r.den)
  else fraction (integerMarkup r.num) (integerMarkup r.den)

/-- Whether the size of a float is shown without a power of ten. -/
def isModerate (x : Float) : Bool :=
  x == 0.0 || (1e-4 ≤ x.abs && x.abs < 1e16)

/-- A float; very large and very small ones are a number below ten times a power of ten. -/
def floatMarkup (x : Float) : String :=
  match if isModerate x then none else mantissaForm? .up x with
  | some (negative, mantissa, power) =>
    let factor := withSign negative (nearestFloat mantissa.digits mantissa.exponent)
    Value.floatText factor ++ " \\cdot 10^" ++ braced (integerMarkup power)
  | none => Value.floatText x

mutual

/-- The markup of a value. -/
def markup : Value → String
  | .number value => rationalMarkup value
  | .float value => floatMarkup value
  | .bool value => "\\text" ++ braced (Value.boolText value)
  | .string text => text
  | .list items => "\\left[ " ++ String.intercalate ", \\  " (markupItems items) ++ "\\right]"
  | .symbolic value => value.markup

def markupItems : List Value → List String
  | [] => []
  | item :: items => markup item :: markupItems items

end

end QuizVariants.Algebra
