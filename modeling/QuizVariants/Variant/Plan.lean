import QuizVariants.Problem.Definition
import QuizVariants.Template.Basic

/-! Plans.
A plan is a definition with every expression and template read once. An expression that refers to
its own parameter or to a later one has no value, whatever the host offers under that name.
-/

namespace QuizVariants

/-- A parameter with its expression as text, and what reading that gave. -/
structure Plan.Parameter where
  name : String
  source : String
  expression : Except EvalError Expr

/-- How the parameters of a problem get their values. -/
inductive Plan.Parameters where
  /-- A script computes them. -/
  | script (body : String)
  /-- They are evaluated in the order of their declaration. -/
  | ordered (parameters : List Plan.Parameter)

structure Plan where
  definition : Definition
  parameters : Plan.Parameters
  statement : Template
  answer : Template
  solution : Template
  choices : List Template

namespace Plan

/-- An expression that refers to none of the names that are not declared before it; of several
such references the first in the order of names counts. -/
def checkReferences (name : String) (undeclared : List String) (e : Expr)
    : Except EvalError Expr :=
  match e.freeNames.find? (fun free => undeclared.contains free) with
  | some referenced => .error (.forwardReference name referenced)
  | none => .ok e

/-- Reads the expressions of parameters in the order of their declaration. -/
def readParameters : List (String × Literal) → List Parameter
  | [] => []
  | (name, literal) :: rest =>
    let undeclared := name :: rest.map Prod.fst
    let expression := (Expr.parse literal.expression).bind (checkReferences name undeclared)
    ⟨name, literal.expression, expression⟩ :: readParameters rest

def ofDefinition (definition : Definition) : Plan :=
  { definition
    parameters :=
      match definition.parameters.get? Section.scriptKey with
      | some body => .script body.expression
      | none => .ordered (readParameters definition.parameters.entries)
    statement := Template.compile definition.statement
    answer := Template.compile definition.answer
    solution := Template.compile definition.solution
    choices := definition.choices.map Template.compile }

end Plan

end QuizVariants
