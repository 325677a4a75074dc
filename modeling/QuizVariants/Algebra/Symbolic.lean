import QuizVariants.Algebra.Markup
import QuizVariants.Expr.Basic
import QuizVariants.Text.Blank

/-! Arithmetic on symbols.
A symbolic result is markup with a strength; operations write the markup of their result and only
drop zeros and ones.
-/

namespace QuizVariants.Algebra

def symbol (name : String) : Value :=
  .symbolic ⟨name, .atom⟩

/-- The value of a name among declared symbols. -/
def symbol? (symbols : List String) (name : String) : Option Value :=
  if symbols.contains name then some (symbol name) else none

/-- A value as part of markup; a negative fraction holds together like a sum. -/
def asSymbolic (value : Value) : Except EvalError Symbolic :=
  match value with
  | .symbolic s => .ok s
  | .number r => .ok ⟨markup value, if r.isNegative then .sum else .atom⟩
  | .float _ => .ok ⟨markup value, .atom⟩
  | _ => .error (.typeMismatch "number or symbol" value.typeName)

/-- Markup in parentheses when it holds together less than `least`. -/
def wrap (s : Symbolic) (least : Strength) : String :=
  if s.strength.rank < least.rank then "\\left(" ++ s.markup ++ "\\right)" else s.markup

def isZero : Value → Bool
  | .number r => r == 0
  | _ => false

def isOne : Value → Bool
  | .number r => r == 1
  | _ => false

def isMinusOne : Value → Bool
  | .number r => r == .integer (-1)
  | _ => false

/-- The result of an operation with a zero or a one that leaves nothing to write. -/
def trivial? (op : BinaryOp) (left right : Value) : Option Value :=
  match op with
  | .arithmetic .add => if isZero left then some right else if isZero right then some left else none
  | .arithmetic .sub => if isZero right then some left else none
  | .arithmetic .mul =>
    if isZero left || isZero right then some (.number 0)
    else if isOne left then some right
    else if isOne right then some left
    else none
  | .arithmetic .div => if isOne right then some left else none
  | .arithmetic .pow => if isOne right then some left else none
  | _ => none

/-- A sum; a term that starts with a minus is subtracted. -/
def sumMarkup (left right : Symbolic) : String :=
  match right.markup.toList with
  | '-' :: rest => left.markup ++ " - " ++ .ofList (Text.trimLeft rest)
  | _ => left.markup ++ " + " ++ right.markup

/-- An operation between two parts of markup. -/
def combineMarkup (op : BinaryOp) (negating : Bool) (left right : Symbolic)
    : Except EvalError Symbolic :=
  match op with
  | .arithmetic .add => .ok ⟨sumMarkup left right, .sum⟩
  | .arithmetic .sub => .ok ⟨left.markup ++ " - " ++ wrap right .product, .sum⟩
  | .arithmetic .mul =>
    if negating then .ok ⟨"- " ++ wrap right .product, .product⟩
    else .ok ⟨wrap left .product ++ " " ++ wrap right .product, .product⟩
  | .arithmetic .div => .ok ⟨fraction left.markup right.markup, .atom⟩
  | .arithmetic .pow => .ok ⟨wrap left .atom ++ "^" ++ braced right.markup, .power⟩
  | op => .error (.operands (.notSymbolic op.symbol))

/-- An operation with a symbolic operand; a product with minus one is an opposite. -/
def combine (op : BinaryOp) (left right : Value) : Except EvalError Value :=
  match trivial? op left right with
  | some value => .ok value
  | none => do
    let l ← asSymbolic left
    let r ← asSymbolic right
    return .symbolic (← combineMarkup op (isMinusOne left) l r)

def negate (value : Value) : Except EvalError Value := do
  return .symbolic ⟨"- " ++ wrap (← asSymbolic value) .product, .sum⟩

end QuizVariants.Algebra

namespace QuizVariants

/-- What a host makes of symbols, and how it writes values. -/
structure HostAlgebra where
  /-- The value of a name that nothing else binds. -/
  symbol? : String → Option Value := fun _ => none
  /-- An arithmetic operation with a symbolic operand. -/
  combine : BinaryOp → Value → Value → Except EvalError Value
  /-- The opposite of a symbolic operand. -/
  negate : Value → Except EvalError Value
  /-- The markup of a value in a template. -/
  markup : Value → String

/-- The built-in algebra with declared symbols. -/
def HostAlgebra.exact (symbols : List String) : HostAlgebra where
  symbol? := Algebra.symbol? symbols
  combine := Algebra.combine
  negate := Algebra.negate
  markup := Algebra.markup

end QuizVariants
