import QuizVariants.Script
import QuizVariants.Template.Render
import QuizVariants.Value.Text
import QuizVariants.Variant.Basic
import QuizVariants.Variant.Plan

/-! Instantiation.
A plan is instantiated by evaluating its parameters and rendering its templates. A parameter
without a value is absent, and what refers to it has no value either.
-/

namespace QuizVariants

open QuizVariants.Template (Rendered)

/-- The values of parameters, the names of the absent ones, and what went wrong. -/
structure Plan.Resolution where
  values : Table Value := .empty
  absent : List String := []
  warnings : List Warning := []

/-- A variant with the values behind it and what went missing. -/
structure Instantiation where
  variant : Variant
  values : Table Value
  absent : List String
  /-- The number of placeholders that stay as they were written. -/
  unresolved : Nat
  warnings : List Warning

namespace Plan

/-- Takes in the outcome of evaluating a parameter. -/
def Resolution.take (resolution : Resolution) (parameter : Parameter)
    (result : Except EvalError Value) : Resolution :=
  match result with
  | .ok value => { resolution with values := resolution.values.insert parameter.name value }
  | .error error =>
    { resolution with
      absent := resolution.absent ++ [parameter.name]
      warnings :=
        resolution.warnings ++ [.parameterAbsent parameter.name parameter.source error] }

/-- Evaluates parameters in order, each of them after the ones before it. -/
def resolveOrdered (context : Context) (resolution : Resolution) : List Parameter →
    Random Resolution
  | [] => return resolution
  | parameter :: rest => do
    let scope : Scope := ⟨resolution.values, context⟩
    let result ← (scope.evalRead parameter.expression).run
    resolveOrdered context (resolution.take parameter result) rest

def runSandbox (context : Context) (sandbox : Sandbox) (body : String)
    : Random (Except ScriptError (Table Value)) :=
  match sandbox with
  | .assignments => (Script.run context body).run
  | .host run => return run body

/-- The values that a script gives to parameters; without a sandbox and after a failure there are
none. The script itself is no parameter. -/
def resolveScript (context : Context) (problem body : String) : Random Resolution := do
  match context.sandbox with
  | none => return { warnings := [.sandboxMissing problem] }
  | some sandbox =>
    match ← runSandbox context sandbox body with
    | .ok values => return { values := values.erase Section.scriptKey }
    | .error error => return { warnings := [.sandboxFailed problem error] }

/-- Gives values to the parameters of a plan. -/
def resolve (plan : Plan) (context : Context) : Random Resolution :=
  match plan.parameters with
  | .script body => resolveScript context plan.definition.problemId body
  | .ordered parameters => resolveOrdered context {} parameters

def renderChoices (scope : Scope) : List Template → Random (List Rendered)
  | [] => return []
  | template :: rest => do
    let first ← Template.render scope template
    return first :: (← renderChoices scope rest)

/-- The answer: the text of the first choice, or a template of its own without choices. -/
def renderAnswer (scope : Scope) (answer : Template) (choices : List Rendered)
    : Random Rendered :=
  match choices with
  | first :: _ => return ⟨first.text, []⟩
  | [] => Template.render scope answer

def instantiate (plan : Plan) (context : Context) : Random Instantiation := do
  let resolution ← plan.resolve context
  let scope : Scope := ⟨resolution.values, context⟩
  let statement ← Template.render scope plan.statement
  let solution ← Template.render scope plan.solution
  let choices ← renderChoices scope plan.choices
  let answer ← renderAnswer scope plan.answer choices
  let rendered := statement :: solution :: choices ++ [answer]
  let definition := plan.definition
  return {
    variant := {
      id := definition.problemId
      title := definition.title
      tags := definition.tags
      statement := statement.text
      answer := answer.text
      solution := solution.text
      solutionTitle := definition.solutionTitle
      choices := choices.map Rendered.text }
    values := resolution.values
    absent := resolution.absent
    unresolved := (rendered.flatMap Rendered.unresolved).length
    warnings := resolution.warnings ++ rendered.flatMap Rendered.warnings }

end Plan

namespace Instantiation

def isClean (instantiation : Instantiation) : Bool :=
  instantiation.absent.isEmpty && instantiation.unresolved == 0

def toJson (instantiation : Instantiation) : Json :=
  .object
    [ ("instance", instantiation.variant.toJson),
      ("values", Value.environmentJson instantiation.values),
      ("report", .object
        [ ("absent_parameters", .strings instantiation.absent),
          ("unresolved_placeholders", .integer instantiation.unresolved) ]) ]

end Instantiation

def Definition.instantiate (definition : Definition) (context : Context) : Random Instantiation :=
  (Plan.ofDefinition definition).instantiate context

end QuizVariants
