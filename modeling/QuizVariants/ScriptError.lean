import QuizVariants.EvalError

/-! Why a script has no bindings. -/

namespace QuizVariants

/-- Why a script failed; lines are counted from one. -/
inductive ScriptError where
  /-- A statement is no assignment. -/
  | malformed (line : Nat) (statement : String)
  /-- The right-hand side of an assignment has no value. -/
  | failed (line : Nat) (error : EvalError)
  /-- A failure that the host reports in its own words. -/
  | host (text : String)
  deriving Repr, DecidableEq

def ScriptError.message : ScriptError → String
  | .malformed line statement =>
    s!"line {line}: expected `name = expression`, found `{statement}`"
  | .failed line error => s!"line {line}: {error.message}"
  | .host text => s!"script sandbox failed: {text}"

end QuizVariants
