import QuizVariants.Proofs.Expr.Names

/-! What an evaluation depends on.
An evaluation sees its scope through the values of its free names, the functions of the host and its
arithmetic on symbols alone: scopes that agree on these lead to the same value after the same draws,
or both to an error.
-/

namespace QuizVariants

open QuizVariants.Evaluation

/-- Two ends of an evaluation that show no difference but in the text of an error: the same value,
or an error each, with the same draws used up. -/
inductive Evaluation.EndsAlike
    : Except EvalError α × Draws → Except EvalError α × Draws → Prop where
  | value (value : α) (rest : Draws) : EndsAlike (.ok value, rest) (.ok value, rest)
  | error (fault other : EvalError) (rest : Draws)
      : EndsAlike (.error fault, rest) (.error other, rest)

theorem Evaluation.EndsAlike.toOption_eq {first second : Except EvalError α × Draws}
    (h : EndsAlike first second)
    : first.1.toOption = second.1.toOption := by
  cases h <;> rfl

/-- Evaluations that end alike on all draws. -/
def Evaluation.Alike (first second : Evaluation α) : Prop :=
  ∀ draws, EndsAlike (first.outcome draws) (second.outcome draws)

/-- Scopes in which the functions of the host are the same, and so is arithmetic on symbols. -/
structure Scope.SameOperations (first second : Scope) : Prop where
  functions
    : ∀ function,
        first.context.functions.get? function = second.context.functions.get? function
  combine : first.context.algebra.combine = second.context.algebra.combine
  negate : first.context.algebra.negate = second.context.algebra.negate

/-- Signs do the same where the opposites of symbols are the same. -/
theorem Scope.SameOperations.unary {first second : Scope} (same : first.SameOperations second)
    : Operation.unary first.context.algebra = Operation.unary second.context.algebra := by
  funext op value
  simp only [Operation.unary, same.negate]

/-- Operators do the same where those on symbols do. -/
theorem Scope.SameOperations.binary {first second : Scope} (same : first.SameOperations second)
    : Operation.binary first.context.algebra = Operation.binary second.context.algebra := by
  funext op left right
  simp only [Operation.binary, Operation.arithmetic, same.combine]

/-- Scopes in which every name of a list has the same value, or none in both. -/
def Scope.Agree (first second : Scope) (names : List String) : Prop :=
  ∀ name ∈ names, first.value? name = second.value? name

namespace Evaluation

theorem Alike.refl (action : Evaluation α) : Alike action action := by
  intro draws
  rcases action.outcome draws with ⟨result, rest⟩
  cases result with
  | ok value => exact .value value rest
  | error fault => exact .error fault fault rest

/-- Two errors without draws are alike, whatever they say. -/
theorem Alike.throw (fault other : EvalError)
    : Alike (throw fault : Evaluation α) (throw other) :=
  fun draws => .error fault other draws

/-- Evaluations in a row are alike when those at each place are. -/
theorem Alike.bind {first second : Evaluation α} {next later : α → Evaluation β}
    (h : Alike first second) (others : ∀ value, Alike (next value) (later value))
    : Alike (first >>= next) (second >>= later) := by
  intro draws
  have ends := h draws
  rw [outcome_bind, outcome_bind]
  -- A first error ends both; a first value is the same in both and meets the same draws.
  generalize first.outcome draws = a at ends ⊢
  generalize second.outcome draws = b at ends ⊢
  cases ends with
  | value value rest => exact others value rest
  | error fault other rest => exact .error fault other rest

end Evaluation

theorem Scope.Agree.append {first second : Scope} {names more : List String}
    (h : first.Agree second (names ++ more))
    : first.Agree second names ∧ first.Agree second more :=
  List.forall_mem_append.mp h

/-- A call of values looks at no names: only which error an unknown function is may differ. -/
theorem Scope.SameOperations.call_alike {first second : Scope} (same : first.SameOperations second)
    (function : String) (args : Library.Arguments)
    : Alike (first.call function args) (second.call function args) := by
  unfold Scope.call
  rw [same.functions function]
  cases second.context.functions.get? function with
  | some run => exact .refl _
  | none =>
      cases Library.Builtin.ofName? function with
      | some builtin => exact .refl _
      | none =>
          dsimp only
          split <;> split <;> exact .throw _ _

namespace Expr

mutual

/-- Scopes that agree on the mentioned names evaluate an expression alike, by cases on it. -/
theorem eval_alike {first second : Scope} (same : first.SameOperations second) (e : Expr)
    (agree : first.Agree second e.mentioned)
    : Alike (e.eval first) (e.eval second) := by
  cases e with
  | number _ | float _ | string _ | bool _ => exact .refl _
  | ident name =>
      have value : first.value? name = second.value? name := agree name (List.mem_singleton_self _)
      simp only [eval, value]
      exact .refl _
  | list items => exact (evalItems_alike same items agree).bind (fun _ => .refl _)
  | set items => exact (evalItems_alike same items agree).bind (fun _ => .refl _)
  | unary op operand =>
      unfold eval
      rw [same.unary]
      exact (eval_alike same operand agree).bind (fun _ => .refl _)
  | binary op left right =>
      unfold eval
      rw [same.binary]
      refine (eval_alike same left agree.append.1).bind (fun _ => ?_)
      exact (eval_alike same right agree.append.2).bind (fun _ => .refl _)
  | call function positional keywords =>
      refine (evalItems_alike same positional agree.append.1).bind (fun _ => ?_)
      refine (evalKeywords_alike same keywords agree.append.2).bind (fun _ => ?_)
      exact same.call_alike function _
  | index target position =>
      refine (eval_alike same target agree.append.1).bind (fun _ => ?_)
      exact (eval_alike same position agree.append.2).bind (fun _ => .refl _)
termination_by sizeOf e

/-- Scopes that agree on the mentioned names evaluate items alike, by induction on the items. -/
theorem evalItems_alike {first second : Scope} (same : first.SameOperations second)
    (items : List Expr) (agree : first.Agree second (mentionedItems items))
    : Alike (evalItems first items) (evalItems second items) := by
  cases items with
  | nil => exact .refl _
  | cons item items =>
      refine (eval_alike same item agree.append.1).bind (fun _ => ?_)
      exact (evalItems_alike same items agree.append.2).bind (fun _ => .refl _)
termination_by sizeOf items

/-- Scopes that agree on the mentioned names evaluate keyword arguments alike, by induction on
them. -/
theorem evalKeywords_alike {first second : Scope} (same : first.SameOperations second)
    (keywords : List (String × Expr)) (agree : first.Agree second (mentionedKeywords keywords))
    : Alike (evalKeywords first keywords) (evalKeywords second keywords) := by
  match keywords with
  | [] => exact .refl _
  | (name, item) :: keywords =>
      refine (eval_alike same item agree.append.1).bind (fun _ => ?_)
      exact (evalKeywords_alike same keywords agree.append.2).bind (fun _ => .refl _)
termination_by sizeOf keywords

end

/-- The free names of an expression are what its evaluation reads.
A free name that is bound nowhere is an error, as every part of an expression is evaluated. Scopes
in which the free names have the same values lead to the same end, as no part reads anything else.
-/
theorem eval_determined_by_freeNames (e : Expr) (draws : Draws)
    : (∀ scope : Scope, ∀ name ∈ e.freeNames,
        scope.locals.get? name = none
        → scope.context.externals.get? name = none
        → scope.context.algebra.symbol? name = none
        → ∃ fault rest, (e.eval scope).outcome draws = (.error fault, rest))
      ∧ ∀ first second : Scope,
        first.SameOperations second
        → first.Agree second e.freeNames
        → EndsAlike ((e.eval first).outcome draws) ((e.eval second).outcome draws) := by
  constructor
  · intro scope name free unbound unoffered undeclared
    refine eval_eq_error_of_unbound free ?_ draws
    rw [Scope.value?, unbound, unoffered, undeclared]
    rfl
  · intro first second same agree
    exact eval_alike same e (fun name read => agree name (mem_freeNames.mpr read)) draws

/-- The expression `pickone(x, [y][0], exception=y)`, which picks the value of `x`. -/
def pickedName : Expr :=
  .call "pickone" [.ident "x", .index (.list [.ident "y"]) (.number 0)] [("exception", .ident "y")]

/-- True and false as values of parameters, next to a value of the host that nothing reads. -/
def bothBound : Scope :=
  ⟨.ofList [("x", .bool true), ("y", .bool false)], { externals := .ofList [("z", .number 1)] }⟩

/-- False as a value of the host behind a parameter, next to a free symbol that nothing reads. -/
def oneOffered : Scope :=
  ⟨.ofList [("x", .bool true)],
    { externals := .ofList [("y", .bool false)], symbols := ["w"] }⟩

/-- It does not matter to a random pick where its values come from, as long as there are some. -/
theorem eval_pickedName
    : pickedName.freeNames = ["x", "y"]
      ∧ (pickedName.eval bothBound).outcome ⟨id, 0⟩ = (.ok (.bool true), ⟨id, 1⟩)
      ∧ EndsAlike ((pickedName.eval bothBound).outcome ⟨id, 0⟩)
        ((pickedName.eval oneOffered).outcome ⟨id, 0⟩)
      ∧ ∃ fault rest, (pickedName.eval ⟨.empty, {}⟩).outcome ⟨id, 0⟩ = (.error fault, rest) := by
  have names : pickedName.freeNames = ["x", "y"] := by decide
  have agree : bothBound.Agree oneOffered pickedName.freeNames := by
    rw [names]
    exact List.forall_mem_cons.mpr ⟨rfl, List.forall_mem_singleton.mpr rfl⟩
  obtain ⟨unbound, alike⟩ := eval_determined_by_freeNames pickedName ⟨id, 0⟩
  refine ⟨names, rfl, alike bothBound oneOffered ⟨fun _ => rfl, rfl, rfl⟩ agree, ?_⟩
  exact unbound ⟨.empty, {}⟩ "x" (names ▸ List.mem_cons_self) rfl rfl rfl

end Expr

end QuizVariants
