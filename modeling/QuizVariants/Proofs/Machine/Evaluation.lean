import QuizVariants.Expr.Eval
import QuizVariants.Proofs.Machine.Choices
import QuizVariants.Proofs.Machine.Formats

/-! Evaluation on a machine.
Main statement: a machine that evaluates an expression refuses no step, whatever the values, the
functions of the host, its algebra and the draws are, and it gives what the expression denotes.
-/

namespace QuizVariants.Machine

-----------------------------------------------------------------------------------------
-- Calls
-----------------------------------------------------------------------------------------

/-- The result of a library function. -/
def callBuiltin (builtin : Library.Builtin) (args : Library.Arguments) : Run Value :=
  match builtin with
  | .randnum => Functions.randnum args
  | .pickone => Functions.pickone args
  | .pick => Functions.pick args
  | .abs => .ofResult (Functions.abs args)
  | .ceil => .ofResult (Functions.ceil args)
  | .floor => .ofResult (Functions.floor args)
  | .round => .ofResult (Functions.round args)
  | .max => .ofResult (Functions.extremum "max" .gt args)
  | .min => .ofResult (Functions.extremum "min" .lt args)
  | .fraction => .ofResult (Functions.fraction args)
  | .sqrt => .ofResult (Functions.sqrt args)
  | .commas => .ofResult (Functions.commas args)
  | .displayFraction => .ofResult (Functions.writeFraction .display args)
  | .inlineFraction => .ofResult (Functions.writeFraction .inline args)
  | .ifelse => .ofResult (Functions.ifelse args)
  | .signsymbol => .ofResult (Functions.signsymbol args)
  | .negativeSign => .ofResult (Functions.negativeSign args)

/-- The result of a call; a function of the host gives its result in one step. -/
def call (scope : Scope) (function : String) (args : Library.Arguments) : Run Value :=
  match scope.context.functions.get? function with
  | some run =>
    match args.keywords with
    | (key, _) :: _ => throw (.error (.operands (.keywordRefused function key)))
    | [] => .ofResult (ofExcept (run args.positional))
  | none =>
    match Library.Builtin.ofName? function with
    | some builtin => callBuiltin builtin args
    | none =>
      if (scope.value? function).isSome then throw (.error (.notCallable function))
      else throw (.error (.undefined function))

/-- No library function makes a step that is refused, by cases on the functions. -/
theorem keepsTo_callBuiltin (builtin : Library.Builtin) (args : Library.Arguments)
    : Run.KeepsTo (callBuiltin builtin args) (builtin.call args) := by
  cases builtin with
  | randnum => exact Functions.keepsTo_randnum args
  | pickone => exact Functions.keepsTo_pickone args
  | pick => exact Functions.keepsTo_pick args
  | abs => exact .of_eq (Functions.abs_eq args)
  | ceil => exact .of_eq (Functions.ceil_eq args)
  | floor => exact .of_eq (Functions.floor_eq args)
  | round => exact .of_eq (Functions.round_eq args)
  | max => exact .of_eq (Functions.extremum_eq "max" .gt args)
  | min => exact .of_eq (Functions.extremum_eq "min" .lt args)
  | fraction => exact .of_eq (Functions.fraction_eq args)
  | sqrt => exact .of_eq (Functions.sqrt_eq args)
  | commas => exact .ofResult (Functions.keepsTo_commas args)
  | displayFraction => exact .of_eq (Functions.writeFraction_eq .display args)
  | inlineFraction => exact .of_eq (Functions.writeFraction_eq .inline args)
  | ifelse => exact .of_eq (Functions.ifelse_eq args)
  | signsymbol => exact .of_eq (Functions.signsymbol_eq args)
  | negativeSign => exact .of_eq (Functions.negativeSign_eq args)

theorem keepsTo_call (scope : Scope) (function : String) (args : Library.Arguments)
    : Run.KeepsTo (call scope function args) (scope.call function args) := by
  rw [call, Scope.call]
  cases scope.context.functions.get? function with
  | some run =>
      obtain ⟨positional, _ | ⟨⟨key, value⟩, keywords⟩⟩ := args
      · exact .of_eq rfl
      · exact .throw _
  | none =>
      cases Library.Builtin.ofName? function with
      | some builtin => exact keepsTo_callBuiltin builtin args
      | none =>
          dsimp only
          split
          · exact .throw _
          · exact .throw _

-----------------------------------------------------------------------------------------
-- Expressions
-----------------------------------------------------------------------------------------

mutual

/-- The value of an expression, step by step. -/
def eval (scope : Scope) (symbols : SymbolSteps scope.context.algebra) : Expr → Run Value
  | .number value => return .number value
  | .float value => return .float value
  | .string text => return .string text
  | .bool value => return .bool value
  | .ident name =>
    match scope.value? name with
    | some value => return value
    | none => throw (.error (.undefined name))
  | .list items => do return .list (← evalItems scope symbols items)
  | .set items => do return .list (Value.distinct (← evalItems scope symbols items))
  | .unary op operand => do
    let value ← eval scope symbols operand
    .ofResult (unary symbols op value)
  | .binary op left right => do
    let left ← eval scope symbols left
    let right ← eval scope symbols right
    .ofResult (binary symbols op left right)
  | .call function positional keywords => do
    let positional ← evalItems scope symbols positional
    let keywords ← evalKeywords scope symbols keywords
    call scope function ⟨positional, keywords⟩
  | .index target position => do
    let target ← eval scope symbols target
    let position ← eval scope symbols position
    .ofResult (subscript target position)

def evalItems (scope : Scope) (symbols : SymbolSteps scope.context.algebra)
    : List Expr → Run (List Value)
  | [] => return []
  | item :: items => do
    let value ← eval scope symbols item
    return value :: (← evalItems scope symbols items)

def evalKeywords (scope : Scope) (symbols : SymbolSteps scope.context.algebra)
    : List (String × Expr) → Run (List (String × Value))
  | [] => return []
  | (name, item) :: items => do
    let value ← eval scope symbols item
    return (name, value) :: (← evalKeywords scope symbols items)

end

mutual

/-- A machine keeps to the value of an expression, by cases on the expression. -/
theorem keepsTo_eval (scope : Scope) (symbols : SymbolSteps scope.context.algebra) (e : Expr)
    : Run.KeepsTo (eval scope symbols e) (e.eval scope) := by
  cases e with
  | number _ | float _ | string _ | bool _ => exact .pure _
  | ident name =>
      unfold eval Expr.eval
      cases scope.value? name with
      | some value => exact .pure value
      | none => exact .throw _
  | list items => exact (keepsTo_evalItems scope symbols items).bind (fun _ => .pure _)
  | set items => exact (keepsTo_evalItems scope symbols items).bind (fun _ => .pure _)
  | unary op operand =>
      refine (keepsTo_eval scope symbols operand).bind (fun value => ?_)
      exact .of_eq (unary_eq symbols op value)
  | binary op left right =>
      refine (keepsTo_eval scope symbols left).bind (fun a => ?_)
      refine (keepsTo_eval scope symbols right).bind (fun b => ?_)
      exact .of_eq (binary_eq symbols op a b)
  | call function positional keywords =>
      refine (keepsTo_evalItems scope symbols positional).bind (fun _ => ?_)
      refine (keepsTo_evalKeywords scope symbols keywords).bind (fun _ => ?_)
      exact keepsTo_call scope function _
  | index target position =>
      refine (keepsTo_eval scope symbols target).bind (fun value => ?_)
      refine (keepsTo_eval scope symbols position).bind (fun place => ?_)
      exact .ofResult (KeepsTo.subscript value place)
termination_by sizeOf e

theorem keepsTo_evalItems (scope : Scope) (symbols : SymbolSteps scope.context.algebra)
    (items : List Expr)
    : Run.KeepsTo (evalItems scope symbols items) (Expr.evalItems scope items) := by
  cases items with
  | nil => exact .pure _
  | cons item items =>
      refine (keepsTo_eval scope symbols item).bind (fun _ => ?_)
      exact (keepsTo_evalItems scope symbols items).bind (fun _ => .pure _)
termination_by sizeOf items

theorem keepsTo_evalKeywords (scope : Scope) (symbols : SymbolSteps scope.context.algebra)
    (items : List (String × Expr))
    : Run.KeepsTo (evalKeywords scope symbols items) (Expr.evalKeywords scope items) := by
  rcases items with _ | ⟨⟨name, item⟩, items⟩
  · exact .pure _
  · refine (keepsTo_eval scope symbols item).bind (fun _ => ?_)
    exact (keepsTo_evalKeywords scope symbols items).bind (fun _ => .pure _)
termination_by sizeOf items

end

/-- No step of an evaluation is refused.
Whatever the expression, the names that it sees, the functions and the algebra of the host and the
draws are, the machine meets no result of arithmetic on words or pairs of words that does not fit, no
division by zero, no place that a sequence does not have, no draw from no numbers, no fraction that
is not in lowest terms and no case that was taken for impossible; `SymbolSteps.exact` are the steps
of the built-in algebra. It gives the outcome of the evaluation, its value or its error together with
the draws that are left, unless a sequence has more items than a memory holds.
-/
theorem eval_takes_no_refused_step (scope : Scope) (symbols : SymbolSteps scope.context.algebra)
    (e : Expr) (draws : Draws)
    : (∀ step, ((eval scope symbols e).outcome draws).1 ≠ .error (.refused step))
      ∧ ((eval scope symbols e).outcome draws
          = (ofExcept ((e.eval scope).outcome draws).1, ((e.eval scope).outcome draws).2)
        ∨ ((eval scope symbols e).outcome draws).1 = .error .exhausted) := by
  have kept := keepsTo_eval scope symbols e draws
  refine ⟨fun step => ?_, kept⟩
  rcases kept with same | ended
  · rw [same]
    exact (KeepsTo.ofExcept _).ne_refused step
  · rw [ended]
    exact nofun

end QuizVariants.Machine
