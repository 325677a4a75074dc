import QuizVariants.Context
import QuizVariants.Expr.Grammar
import QuizVariants.Expr.Operation
import QuizVariants.Library.Builtin
import QuizVariants.Warning

/-! Values of expressions.
Operands and arguments are evaluated from left to right, positional arguments before keyword
arguments, and the first error ends the evaluation.
-/

namespace QuizVariants

/-- The result of a call: functions of the host come first, then those of the library. -/
def Scope.call (scope : Scope) (function : String) (args : Library.Arguments)
    : Evaluation Value :=
  match scope.context.functions.get? function with
  | some run =>
    match args.keywords with
    | (key, _) :: _ => throw (.operands (.keywordRefused function key))
    | [] => .ofExcept (run args.positional)
  | none =>
    match Library.Builtin.ofName? function with
    | some builtin => builtin.call args
    | none =>
      if (scope.value? function).isSome then throw (.notCallable function)
      else throw (.undefined function)

namespace Expr

mutual

def eval (scope : Scope) : Expr → Evaluation Value
  | .number value => return .number value
  | .float value => return .float value
  | .string text => return .string text
  | .bool value => return .bool value
  | .ident name =>
    match scope.value? name with
    | some value => return value
    | none => throw (.undefined name)
  | .list items => do
    return .list (← evalItems scope items)
  | .set items => do
    return .list (Value.distinct (← evalItems scope items))
  | .unary op operand => do
    let value ← eval scope operand
    .ofExcept (Operation.unary scope.context.algebra op value)
  | .binary op left right => do
    let left ← eval scope left
    let right ← eval scope right
    .ofExcept (Operation.binary scope.context.algebra op left right)
  | .call function positional keywords => do
    let positional ← evalItems scope positional
    let keywords ← evalKeywords scope keywords
    scope.call function ⟨positional, keywords⟩
  | .index target position => do
    let target ← eval scope target
    let position ← eval scope position
    .ofExcept (Operation.subscript target position)

def evalItems (scope : Scope) : List Expr → Evaluation (List Value)
  | [] => return []
  | item :: items => do
    let value ← eval scope item
    return value :: (← evalItems scope items)

def evalKeywords (scope : Scope) : List (String × Expr) → Evaluation (List (String × Value))
  | [] => return []
  | (name, item) :: items => do
    let value ← eval scope item
    return (name, value) :: (← evalKeywords scope items)

end

end Expr

namespace Scope

/-- The value of an expression that may have failed to be read. -/
def evalRead (scope : Scope) (expression : Except EvalError Expr) : Evaluation Value := do
  let e ← .ofExcept expression
  e.eval scope

/-- The value of the text of an expression. -/
def evaluate (scope : Scope) (source : String) : Evaluation Value :=
  scope.evalRead (Expr.parse source)

/-- The value of the text of an expression, or a warning why there is none. -/
def evaluate? (scope : Scope) (source : String) : Random (Option Value × List Warning) := do
  match ← (scope.evaluate source).run with
  | .ok value => return (some value, [])
  | .error error => return (none, [.expressionFailed source error])

end Scope

end QuizVariants
