import QuizVariants.Value.Basic

/-! Equality and order of values.
Numbers compare across the two kinds of numbers, a fraction being rounded to a float when it meets
one; everything else compares by structure.
-/

namespace QuizVariants.Value

mutual

/-- Equality by structure; floats are equal when they compare equal, so nothing that holds what is
not a number equals itself. -/
def same : Value → Value → Bool
  | .number a, .number b => a == b
  | .float a, .float b => a == b
  | .bool a, .bool b => a == b
  | .string a, .string b => a == b
  | .list a, .list b => sameItems a b
  | .symbolic a, .symbolic b => a == b
  | _, _ => false

def sameItems : List Value → List Value → Bool
  | [], [] => true
  | a :: as, b :: bs => same a b && sameItems as bs
  | _, _ => false

end

/-- Equality of numbers across fractions and floats, and by structure otherwise. -/
def looselyEquals : Value → Value → Bool
  | .number a, .float b => a.toFloat == b
  | .float a, .number b => a == b.toFloat
  | a, b => same a b

/-- The order of two floats, which exists when both are numbers. -/
def floatOrder? (a b : Float) : Option Ordering :=
  if a < b then some .lt
  else if a == b then some .eq
  else if b < a then some .gt
  else none

/-- The order of two numbers or of two strings; it is missing when one of the numbers is none. -/
def order? : Value → Value → Except EvalError (Option Ordering)
  | .number a, .number b => .ok (some (a.order b))
  | .number a, .float b => .ok (floatOrder? a.toFloat b)
  | .float a, .number b => .ok (floatOrder? a b.toFloat)
  | .float a, .float b => .ok (floatOrder? a b)
  | .string a, .string b => .ok (some (compare a b))
  | a, b => .error (.operands (.unordered a.typeName b.typeName))

/-- The order of two values that have one. -/
def order (a b : Value) : Except EvalError Ordering := do
  match ← order? a b with
  | some ordering => .ok ordering
  | none => .error (.operands .unorderedNan)

/-- Keeps a value unless an earlier kept one is loosely equal to it. -/
def distinct (values : List Value) : List Value :=
  values.foldl
    (fun kept value => if kept.any (·.looselyEquals value) then kept else kept ++ [value]) []

end QuizVariants.Value
