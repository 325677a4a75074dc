import QuizVariants.Algebra.Symbolic
import QuizVariants.ScriptError
import QuizVariants.Table
import QuizVariants.Value.Basic

/-! What an expression can see.
A host offers values, functions and an algebra of free symbols to all expressions of a problem, and
decides who runs the scripts.
-/

namespace QuizVariants

/-- A function of the host. -/
abbrev HostFunction := List Value → Except EvalError Value

/-- Who runs the scripts of problems. -/
inductive Sandbox where
  /-- Scripts are lists of assignments. -/
  | assignments
  /-- The host runs scripts in its own way. -/
  | host (run : String → Except ScriptError (Table Value))

/-- What a host offers to the expressions of a problem. -/
structure Context where
  externals : Table Value := .empty
  /-- Functions of the host come before library functions with the same names. -/
  functions : Table HostFunction := .empty
  /-- The free symbols of the built-in algebra. -/
  symbols : List String := []
  /-- A host may bring an algebra of its own in place of the built-in one. -/
  algebra : HostAlgebra := .exact symbols
  sandbox : Option Sandbox := none

/-- The names that one evaluation sees: values bound so far, and what the host offers. -/
structure Scope where
  locals : Table Value
  context : Context

/-- The value of a name: bound values come before those of the host, and free symbols last. -/
def Scope.value? (scope : Scope) (name : String) : Option Value :=
  scope.locals.get? name <|> scope.context.externals.get? name
    <|> scope.context.algebra.symbol? name

end QuizVariants
