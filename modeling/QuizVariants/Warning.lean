import QuizVariants.ScriptError

/-! Warnings.
What goes wrong without stopping the work is reported as data, in the order in which it happens.
-/

namespace QuizVariants

/-- Something that went wrong without stopping the work. -/
inductive Warning where
  /-- A section of entries is malformed and counts as empty. -/
  | malformedMapping (name : String)
  /-- The entries of a tagged source are malformed and count as none. -/
  | malformedInfo
  /-- A list of items does not start with a dash. -/
  | missingDash (name : String)
  | expressionFailed (expression : String) (error : EvalError)
  | placeholderUnresolved (placeholder : String) (error : EvalError)
  | parameterAbsent (parameter expression : String) (error : EvalError)
  | sandboxMissing (problem : String)
  | sandboxFailed (problem : String) (error : ScriptError)
  | budgetExhausted (problem : String) (requested accepted attempts duplicates : Nat)
  deriving Repr, DecidableEq

namespace Warning

def message : Warning → String
  | .malformedMapping _ => "malformed mapping; using an empty one"
  | .malformedInfo => "malformed Info section; using an empty mapping"
  | .missingDash _ => "choices must start with '-'"
  | .expressionFailed _ _ => "cannot evaluate expression"
  | .placeholderUnresolved _ _ => "placeholder left unresolved"
  | .parameterAbsent _ _ _ => "parameter is absent"
  | .sandboxMissing _ => "script parameters need a sandbox; none configured"
  | .sandboxFailed _ _ => "script sandbox failed"
  | .budgetExhausted .. => "attempt budget exhausted before the batch was filled"

def details : Warning → List (String × String)
  | .malformedMapping name => [("section", name)]
  | .malformedInfo => []
  | .missingDash name => [("section", name)]
  | .expressionFailed expression error => [("expression", expression), ("error", error.message)]
  | .placeholderUnresolved placeholder error =>
    [("placeholder", placeholder), ("error", error.message)]
  | .parameterAbsent parameter expression error =>
    [("parameter", parameter), ("expression", expression), ("error", error.message)]
  | .sandboxMissing problem => [("problem", problem)]
  | .sandboxFailed problem error => [("problem", problem), ("error", error.message)]
  | .budgetExhausted problem requested accepted attempts duplicates =>
    [("problem", problem), ("requested", toString requested), ("accepted", toString accepted),
      ("attempts", toString attempts), ("duplicates", toString duplicates)]

end Warning

end QuizVariants
