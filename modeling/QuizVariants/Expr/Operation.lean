import QuizVariants.Algebra.Symbolic
import QuizVariants.Rational.Rounding
import QuizVariants.Value.Order

/-! Operations on values.
Arithmetic is exact as long as both operands are; a float makes the result a float, and symbols are
left to the algebra.
-/

namespace QuizVariants.Operation

open QuizVariants.Decimal

/-- The operand of a sign. -/
def unary (algebra : HostAlgebra) (op : UnaryOp) (value : Value) : Except EvalError Value :=
  match op, value with
  | .pos, .number r => .ok (.number r)
  | .pos, .float x => .ok (.float x)
  | .pos, .symbolic s => .ok (.symbolic s)
  | .neg, .number r => (exactly r.neg).map .number
  | .neg, .float x => .ok (.float (-x))
  | .neg, .symbolic s => algebra.negate (.symbolic s)
  | _, value => .error (.typeMismatch "number" value.typeName)

/-- Arithmetic on floats; a division by zero and a result that is no number are errors. -/
def float (op : ArithmeticOp) (x y : Float) : Except EvalError Value :=
  let defined (result : Float) : Except EvalError Value :=
    if result.isNaN then
      .error (.operands
        (.noRealResult (Layout.plain.write x) op.symbol (Layout.plain.write y)))
    else .ok (.float result)
  match op with
  | .add => defined (x + y)
  | .sub => defined (x - y)
  | .mul => defined (x * y)
  | .div => if y == 0.0 then .error (.arithmetic .divisionByZero) else defined (x / y)
  | .rem =>
    if y == 0.0 then .error (.arithmetic .divisionByZero)
    else defined (x - (x / y).floor * y)
  | .pow => defined (x.pow y)

/-- The remainder of a fraction, which has the sign of the divisor. -/
def remainder (a b : Rational) : Except Rational.Fault Rational := do
  let quotient ← a.div b
  a.sub (← b.mul (.integer quotient.floor quotient.fits_floor))

/-- Arithmetic on fractions; only a power with an exponent that is not whole is a float. -/
def exact (op : ArithmeticOp) (a b : Rational) : Except EvalError Value :=
  match op with
  | .add => (exactly (a.add b)).map .number
  | .sub => (exactly (a.sub b)).map .number
  | .mul => (exactly (a.mul b)).map .number
  | .div => (exactly (a.div b)).map .number
  | .rem => (exactly (remainder a b)).map .number
  | .pow =>
    if b.isInteger then (exactly (a.pow b.num)).map .number else float .pow a.toFloat b.toFloat

/-- Whether two values in a given order satisfy a comparison; two values without order satisfy
none. -/
def asksFor (op : ComparisonOp) (order? : Option Ordering) : Bool :=
  match op, order? with
  | .eq, some order => order == .eq
  | .ne, some order => order != .eq
  | .lt, some order => order == .lt
  | .le, some order => order != .gt
  | .gt, some order => order == .gt
  | .ge, some order => order != .lt
  | _, none => false

/-- A comparison of two values; equality has no errors. -/
def compare (op : ComparisonOp) (left right : Value) : Except EvalError Value :=
  match op with
  | .eq => .ok (.bool (left.looselyEquals right))
  | .ne => .ok (.bool (!left.looselyEquals right))
  | op => (left.order? right).map (fun order? => .bool (asksFor op order?))

def arithmetic (algebra : HostAlgebra) (op : ArithmeticOp) (left right : Value)
    : Except EvalError Value :=
  match left, right with
  | .symbolic _, _ => algebra.combine (.arithmetic op) left right
  | _, .symbolic _ => algebra.combine (.arithmetic op) left right
  | .number a, .number b => exact op a b
  | .number a, .float y => float op a.toFloat y
  | .float x, .number b => float op x b.toFloat
  | .float x, .float y => float op x y
  | .string a, .string b =>
    if op = .add then .ok (.string (a ++ b))
    else .error (.operands (.unsupported op.symbol left.typeName right.typeName))
  | .list as, .list bs =>
    if op = .add then .ok (.list (as ++ bs))
    else .error (.operands (.unsupported op.symbol left.typeName right.typeName))
  | _, _ => .error (.operands (.unsupported op.symbol left.typeName right.typeName))

def binary (algebra : HostAlgebra) (op : BinaryOp) (left right : Value) : Except EvalError Value :=
  match op with
  | .arithmetic op => arithmetic algebra op left right
  | .comparison op => compare op left right

/-- The position in a sequence that an index stands for; a negative one counts from the end. -/
def position (index : Int) (length : Nat) : Except EvalError (Fin length) :=
  let place := if index < 0 then index + length else index
  if h : 0 ≤ place ∧ place.toNat < length then .ok ⟨place.toNat, h.2⟩
  else .error (.indexOutOfBounds index length)

/-- The item of a list or the character of a string at an index. -/
def subscript (target index : Value) : Except EvalError Value := do
  let index ← index.toInteger
  match target with
  | .list items =>
    let place ← position index items.length
    return items.get place
  | .string text =>
    let place ← position index text.toList.length
    return .string (.singleton (text.toList.get place))
  | target => .error (.typeMismatch "list or string" target.typeName)

end QuizVariants.Operation
