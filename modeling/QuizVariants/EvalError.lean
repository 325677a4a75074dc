import QuizVariants.Rational.Basic

/-! Why an expression has no value.
Every cause is a constructor; the wording of all of them is in one place.
-/

namespace QuizVariants

/-- Why a text is not an expression. -/
inductive SyntaxFault where
  | tooDeep
  | unexpectedEnd
  /-- The text stops being an expression where `rest` starts. -/
  | unexpectedInput (rest : String)
  deriving Repr, DecidableEq

/-- What is wrong with the arguments of a library function. -/
inductive ArgumentFault where
  | unexpectedKeyword (keyword : String)
  | notNumber (typeName : String)
  | stepNotPositive
  | emptyRange (low high : String)
  | allExcluded (low high : String)
  | nothingToPick
  | negativeCount (count : Int)
  | tooFewCandidates (count available : Nat)
  | noValues
  | negativeRadicand (radicand : String)
  deriving Repr, DecidableEq

/-- Why an operation has no result on its operands. -/
inductive OperandFault where
  | keywordRefused (function keyword : String)
  | unsupported (operator left right : String)
  | noRealResult (left operator right : String)
  | unordered (left right : String)
  | unorderedNan
  | notSymbolic (operator : String)
  deriving Repr, DecidableEq

/-- Why an expression has no value. -/
inductive EvalError where
  | badSyntax (fault : SyntaxFault)
  | undefined (name : String)
  | notCallable (name : String)
  | arity (function expected : String) (got : Nat)
  | typeMismatch (expected got : String)
  | arithmetic (fault : Rational.Fault)
  | indexOutOfBounds (index : Int) (length : Nat)
  | invalidArgument (function : String) (fault : ArgumentFault)
  | exhaustedSampling (function : String) (draws : Nat)
  | forwardReference (name referenced : String)
  | operands (fault : OperandFault)
  /-- A failure that a function of the host reports in its own words. -/
  | host (text : String)
  deriving Repr, DecidableEq

def SyntaxFault.message : SyntaxFault → String
  | .tooDeep => "expression nested too deeply"
  | .unexpectedEnd => "unexpected end of expression"
  | .unexpectedInput rest => s!"unexpected input at '{rest}'"

def ArgumentFault.message : ArgumentFault → String
  | .unexpectedKeyword keyword => s!"unexpected keyword argument '{keyword}'"
  | .notNumber typeName => s!"expected a number, got {typeName}"
  | .stepNotPositive => "step must be positive"
  | .emptyRange low high => s!"empty range {low}..={high}"
  | .allExcluded low high => s!"every value between {low} and {high} is excluded"
  | .nothingToPick => "nothing to pick from"
  | .negativeCount count => s!"cannot pick {count} values"
  | .tooFewCandidates count available =>
    s!"cannot pick {count} values from {available} candidates"
  | .noValues => "expected at least one value"
  | .negativeRadicand radicand => s!"square root of negative number {radicand}"

def OperandFault.message : OperandFault → String
  | .keywordRefused function keyword =>
    s!"{function}() does not accept keyword argument '{keyword}'"
  | .unsupported operator left right =>
    s!"unsupported operand types for {operator}: {left} and {right}"
  | .noRealResult left operator right => s!"{left} {operator} {right} has no real result"
  | .unordered left right => s!"cannot order {left} and {right}"
  | .unorderedNan => "cannot order nan"
  | .notSymbolic operator => s!"operator '{operator}' is not defined for symbolic operands"

def Rational.Fault.message : Rational.Fault → String
  | .divisionByZero => "division by zero"
  | .overflow => "arithmetic overflow"

def EvalError.message : EvalError → String
  | .badSyntax fault => s!"syntax error: {fault.message}"
  | .undefined name => s!"undefined name '{name}'"
  | .notCallable name => s!"'{name}' is not a function"
  | .arity function expected got => s!"{function}() takes {expected} argument(s), got {got}"
  | .typeMismatch expected got => s!"type mismatch: expected {expected}, got {got}"
  | .arithmetic fault => fault.message
  | .indexOutOfBounds index length => s!"index {index} out of bounds for length {length}"
  | .invalidArgument function fault => s!"{function}(): {fault.message}"
  | .exhaustedSampling function draws =>
    s!"{function}(): no admissible value after {draws} draws"
  | .forwardReference name referenced =>
    s!"'{name}' refers to parameter '{referenced}', which is not declared before it"
  | .operands fault => fault.message
  | .host text => text

/-- The result of arithmetic on fractions as a result of evaluation. -/
def exactly (result : Except Rational.Fault α) : Except EvalError α :=
  result.mapError .arithmetic

end QuizVariants
