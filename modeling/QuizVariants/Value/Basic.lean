import QuizVariants.EvalError

/-! Values of expressions.
Numbers are exact fractions as long as the operations on them are; floats appear where an author
writes one or where no exact result exists.
-/

namespace QuizVariants

/-- How tightly markup holds together when it becomes part of larger markup. -/
inductive Strength where
  | sum
  | product
  | power
  | atom
  deriving Repr, DecidableEq

/-- The position of a strength among all of them, the loosest first. -/
def Strength.rank : Strength → Nat
  | .sum => 0
  | .product => 1
  | .power => 2
  | .atom => 3

/-- A symbolic result, held as its mathematical markup. -/
structure Symbolic where
  markup : String
  strength : Strength
  deriving Repr, DecidableEq

/-- What an expression evaluates to. -/
inductive Value where
  | number (value : Rational)
  | float (value : Float)
  | bool (value : Bool)
  | string (text : String)
  | list (items : List Value)
  | symbolic (value : Symbolic)
  deriving Inhabited

namespace Value

def integer (n : Int) (fits : Fits n := by decide) : Value :=
  .number (.integer n fits)

def typeName : Value → String
  | .number value => if value.isInteger then "integer" else "rational"
  | .float _ => "float"
  | .bool _ => "bool"
  | .string _ => "string"
  | .list _ => "list"
  | .symbolic _ => "symbolic"

def isNumeric : Value → Bool
  | .number _ => true
  | .float _ => true
  | _ => false

/-- The float nearest to a numeric value. -/
def toFloat? : Value → Option Float
  | .number value => some value.toFloat
  | .float value => some value
  | _ => none

def string? : Value → Option String
  | .string text => some text
  | _ => none

/-- The integer between the ends of a word that a float denotes. -/
def wordOfFloat? (x : Float) : Option Int :=
  (Decimal.integer? x).filter (fun n => n.natAbs < wordBound.natAbs)

/-- The integer that a value stands for: a whole fraction or a whole float. -/
def toInteger : Value → Except EvalError Int
  | .number value =>
    if value.isInteger then .ok value.num else .error (.typeMismatch "integer" "rational")
  | .float value =>
    match wordOfFloat? value with
    | some n => .ok n
    | none => .error (.typeMismatch "integer" "float")
  | value => .error (.typeMismatch "integer" value.typeName)

def ofInteger (n : Int) : Except EvalError Value :=
  if fits : Fits n then .ok (.integer n fits) else .error (.arithmetic .overflow)

/-- A whole float as an integer value; the least integer of a word is left out. -/
def ofWhole (n? : Option Int) : Except EvalError Value :=
  match n?.filter (fun n => n.natAbs < wordBound.natAbs) with
  | some n => ofInteger n
  | none => .error (.arithmetic .overflow)

end Value

end QuizVariants
