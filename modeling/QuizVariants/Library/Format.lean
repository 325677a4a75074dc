import QuizVariants.Decimal.Layout
import QuizVariants.Library.Arguments
import QuizVariants.Algebra.Markup

/-! Functions that write numbers. -/

namespace QuizVariants.Library

open QuizVariants.Decimal

/-- Digits in reverse with a comma after every third one that another digit follows. -/
def groupReversed : List Char → List Char
  | a :: b :: c :: d :: rest => a :: b :: c :: ',' :: groupReversed (d :: rest)
  | digits => digits

/-- Digits in groups of three with commas between them; only the first group may be shorter. -/
def groupThousands (digits : List Char) : List Char :=
  (groupReversed digits.reverse).reverse

def groupedInteger (n : Int) : List Char :=
  (if n < 0 then ['-'] else []) ++ groupThousands (digitsOf n.natAbs)

/-- A float to two places with its digits in groups; a sign is shown only in front of a number
that does not round to zero. -/
def groupedFloat (x : Float) : List Char :=
  let text := fixed 2 x.abs
  let sign := x < 0.0 && text.any (fun c => c.isDigit && c != '0')
  (if sign then ['-'] else []) ++ groupThousands (text.takeWhile (· != '.'))
    ++ text.dropWhile (· != '.')

def commas (args : Arguments) : Except EvalError Value := do
  match ← args.single "commas" with
  | .number r =>
    if r.isInteger then return .string (.ofList (groupedInteger r.num))
    else return .string (.ofList (groupedFloat r.toFloat))
  | .float x => return .string (.ofList (groupedFloat x))
  | value => return value

/-- How a fraction is written. -/
inductive FractionStyle where
  /-- One part over the other. -/
  | display
  /-- The parts on one line. -/
  | inline
  deriving Repr, DecidableEq

/-- The function that writes fractions in a style. -/
def FractionStyle.function : FractionStyle → String
  | .display => "dfraction"
  | .inline => "line_fraction"

/-- A fraction of two parts that are not negative. -/
def FractionStyle.write (style : FractionStyle) (r : Rational) : String :=
  let top := Algebra.integerMarkup r.num
  let bottom := Algebra.integerMarkup r.den
  match style with
  | .display => "\\dfrac" ++ Algebra.braced top ++ Algebra.braced bottom
  | .inline => top ++ "/" ++ bottom

def withMinus (negative : Bool) (text : String) : String :=
  if negative then "-" ++ text else text

/-- Writes the fraction of two integers in lowest terms, or the integer that it is. -/
def writeRatio (style : FractionStyle) (num den : Value) : Except EvalError Value := do
  let num ← num.toInteger
  let den ← den.toInteger
  let r ← exactly (Rational.ofRatio num den)
  let size ← exactly r.abs
  if size.isInteger then
    return .string (Algebra.integerMarkup (if r.isNegative then -size.num else size.num))
  else return .string (withMinus r.isNegative (style.write size))

/-- Writes a fraction; a number that is none is left as it is. -/
def writeFraction (style : FractionStyle) (args : Arguments) : Except EvalError Value := do
  match ← args.withoutKeywords style.function with
  | [.number r] =>
    if r.isInteger then return .number r
    else
      let size ← exactly r.abs
      return .string (withMinus r.isNegative (style.write size))
  | [value] =>
    requireNumber style.function value
    return value
  | [num, den] => writeRatio style num den
  | values => throw (.arity style.function "1 or 2" values.length)

end QuizVariants.Library
