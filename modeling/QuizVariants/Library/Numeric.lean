import QuizVariants.Library.Arguments
import QuizVariants.Rational.Root
import QuizVariants.Rational.Rounding
import QuizVariants.Value.Text

/-! Numeric functions. -/

namespace QuizVariants.Library

def abs (args : Arguments) : Except EvalError Value := do
  match ← args.single "abs" with
  | .number r => (exactly r.abs).map .number
  | .float x => return .float x.abs
  | value => notNumber value

/-- The least integer at least a number. -/
def ceil (args : Arguments) : Except EvalError Value := do
  match ← args.single "ceil" with
  | .number r => return .integer r.ceil r.fits_ceil
  | .float x => Value.ofWhole (Decimal.ceil? x)
  | value => notNumber value

/-- The greatest integer at most a number. -/
def floor (args : Arguments) : Except EvalError Value := do
  match ← args.single "floor" with
  | .number r => return .integer r.floor r.fits_floor
  | .float x => Value.ofWhole (Decimal.floor? x)
  | value => notNumber value

/-- A fraction rounded to `digits` places, a half going to the even neighbour. -/
def roundRational (r : Rational) (digits : Int) : Except Rational.Fault Rational := do
  let scale ← (Rational.integer 10).pow digits
  let scaled ← r.mul scale
  Rational.div (.integer scaled.round scaled.fits_round) scale

/-- The greatest size of a number of digits to which a float is rounded. -/
def digitBound : Int := 0x80000000

/-- A float rounded to `digits` places by scaling it. -/
def roundFloat (x : Float) (digits : Int) : Except EvalError Float :=
  if -digitBound ≤ digits ∧ digits < digitBound then
    let scale := Decimal.powerOfTen digits
    .ok (Decimal.roundEven (x * scale) / scale)
  else .error (.arithmetic .overflow)

/-- The nearest integer, or the nearest number with a given number of places. -/
def round (args : Arguments) : Except EvalError Value := do
  match ← args.withoutKeywords "round" with
  | [.number r] => return .integer r.round r.fits_round
  | [.float x] => Value.ofWhole (Decimal.nearest? x)
  | [value] => notNumber value
  | [value, digits] =>
    let digits ← digits.toInteger
    match value with
    | .number r => (exactly (roundRational r digits)).map .number
    | .float x => (roundFloat x digits).map .float
    | value => notNumber value
  | values => throw (.arity "round" "1 or 2" values.length)

/-- The value of a list that comes first in the order `wanted` asks for; of equal ones the
earliest. -/
def extremum (function : String) (wanted : Ordering) (args : Arguments)
    : Except EvalError Value := do
  match Arguments.spread (← args.withoutKeywords function) with
  | [] => throw (.invalidArgument function .noValues)
  | first :: rest =>
    rest.foldlM
      (fun best value => do return if (← value.order best) == wanted then value else best) first

def max (args : Arguments) : Except EvalError Value :=
  extremum "max" .gt args

def min (args : Arguments) : Except EvalError Value :=
  extremum "min" .lt args

def requireExact : Value → Except EvalError Rational
  | .number r => .ok r
  | value => .error (.typeMismatch "exact number" value.typeName)

def fraction (args : Arguments) : Except EvalError Value := do
  match ← args.withoutKeywords "fraction" with
  | [num] =>
    let num ← requireExact num
    (exactly (num.div 1)).map .number
  | [num, den] =>
    let num ← requireExact num
    let den ← requireExact den
    (exactly (num.div den)).map .number
  | values => throw (.arity "fraction" "1 or 2" values.length)

/-- The square root, exact where it is a fraction. -/
def sqrt (args : Arguments) : Except EvalError Value := do
  match ← args.single "sqrt" with
  | .number r =>
    if r.isNegative then throw (.invalidArgument "sqrt" (.negativeRadicand r.text))
    else
      match r.sqrt? with
      | some root => return .number root
      | none => return .float r.toFloat.sqrt
  | .float x =>
    if x < 0.0 then
      throw (.invalidArgument "sqrt" (.negativeRadicand (Decimal.Layout.plain.write x)))
    else return .float x.sqrt
  | value => notNumber value

/-- Whether a number is below zero. -/
def isNegative (function : String) (value : Value) : Except EvalError Bool := do
  requireNumber function value
  return (← value.order (.number 0)) == .lt

/-- The sign of a number for a sum. -/
def signsymbol (args : Arguments) : Except EvalError Value := do
  let value ← args.single "signsymbol"
  return .string (if ← isNegative "signsymbol" value then "-" else "+")

/-- The sign of a number, which only negative ones show. -/
def negativeSign (args : Arguments) : Except EvalError Value := do
  let value ← args.single "signsymbol_neg"
  return .string (if ← isNegative "signsymbol_neg" value then "-" else "")

/-- Whether a test holds that a symbol names; any other symbol names one that always does. -/
def testHolds (symbol : Option String) (left right : Value) : Except EvalError Bool :=
  match symbol with
  | some "=" => .ok (left.looselyEquals right)
  | some ">" => (left.order right).map (· == .gt)
  | some ">=" => (left.order right).map (· != .lt)
  | some "<" => (left.order right).map (· == .lt)
  | some "<=" => (left.order right).map (· != .gt)
  | _ => .ok true

/-- One of two values, by a test on two others. -/
def ifelse (args : Arguments) : Except EvalError Value := do
  match ← args.withoutKeywords "ifelse" with
  | [left, right, symbol, whenTrue, whenFalse] =>
    return if ← testHolds symbol.string? left right then whenTrue else whenFalse
  | values => throw (.arity "ifelse" "5" values.length)

end QuizVariants.Library
