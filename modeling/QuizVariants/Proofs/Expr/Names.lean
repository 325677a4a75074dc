import QuizVariants.Expr.Eval
import QuizVariants.Proofs.Draws.Runs

/-! Names that an expression reads.
An expression has a value only if each of its free names has one: every operand, item and
argument is evaluated before the expression itself.
-/

namespace QuizVariants.Expr

open QuizVariants.Evaluation

/-- Every name of a list has a value in a scope. -/
def Bound (scope : Scope) (names : List String) : Prop :=
  ∀ name ∈ names, (scope.value? name).isSome

theorem bound_append {scope : Scope} {first second : List String}
    : Bound scope (first ++ second) ↔ Bound scope first ∧ Bound scope second :=
  List.forall_mem_append

mutual

/-- All mentioned names of an expression with a value are bound, by cases on the expression. -/
theorem bound_of_eval {scope : Scope} {draws rest : Draws} {value : Value} (e : Expr)
    (h : (e.eval scope).outcome draws = (.ok value, rest))
    : Bound scope e.mentioned := by
  cases e with
  | number _ | float _ | string _ | bool _ => simp [Bound, mentioned]
  | ident name =>
      simp only [Bound, mentioned, List.mem_singleton, forall_eq]
      cases found : scope.value? name with
      | some _ => rfl
      | none =>
          simp only [eval, found] at h
          exact nomatch congrArg Prod.fst h
  | list items =>
      obtain ⟨values, _, evaluated, _⟩ := outcome_bind_eq_ok_iff.mp h
      exact bound_of_evalItems items evaluated
  | set items =>
      obtain ⟨values, _, evaluated, _⟩ := outcome_bind_eq_ok_iff.mp h
      exact bound_of_evalItems items evaluated
  -- An operation comes after all of its operands, so its value needs theirs.
  | unary op operand =>
      obtain ⟨_, _, evaluated, _⟩ := outcome_bind_eq_ok_iff.mp h
      exact bound_of_eval operand evaluated
  | binary op left right =>
      obtain ⟨_, _, leftEvaluated, h⟩ := outcome_bind_eq_ok_iff.mp h
      obtain ⟨_, _, rightEvaluated, _⟩ := outcome_bind_eq_ok_iff.mp h
      exact bound_append.mpr ⟨bound_of_eval left leftEvaluated, bound_of_eval right rightEvaluated⟩
  | call function positional keywords =>
      obtain ⟨_, _, positionalEvaluated, h⟩ := outcome_bind_eq_ok_iff.mp h
      obtain ⟨_, _, keywordsEvaluated, _⟩ := outcome_bind_eq_ok_iff.mp h
      exact bound_append.mpr
        ⟨bound_of_evalItems positional positionalEvaluated,
          bound_of_evalKeywords keywords keywordsEvaluated⟩
  | index target position =>
      obtain ⟨_, _, targetEvaluated, h⟩ := outcome_bind_eq_ok_iff.mp h
      obtain ⟨_, _, positionEvaluated, _⟩ := outcome_bind_eq_ok_iff.mp h
      exact bound_append.mpr
        ⟨bound_of_eval target targetEvaluated, bound_of_eval position positionEvaluated⟩
termination_by sizeOf e

/-- All mentioned names of items with values are bound, by induction on the items. -/
theorem bound_of_evalItems {scope : Scope} {draws rest : Draws} {values : List Value}
    (items : List Expr) (h : (evalItems scope items).outcome draws = (.ok values, rest))
    : Bound scope (mentionedItems items) := by
  cases items with
  | nil => simp [Bound, mentionedItems]
  | cons item items =>
      obtain ⟨_, _, itemEvaluated, h⟩ := outcome_bind_eq_ok_iff.mp h
      obtain ⟨_, _, itemsEvaluated, _⟩ := outcome_bind_eq_ok_iff.mp h
      exact bound_append.mpr
        ⟨bound_of_eval item itemEvaluated, bound_of_evalItems items itemsEvaluated⟩
termination_by sizeOf items

/-- All mentioned names of keyword arguments with values are bound, by induction on them. -/
theorem bound_of_evalKeywords {scope : Scope} {draws rest : Draws}
    {values : List (String × Value)} (keywords : List (String × Expr))
    (h : (evalKeywords scope keywords).outcome draws = (.ok values, rest))
    : Bound scope (mentionedKeywords keywords) := by
  match keywords with
  | [] => simp [Bound, mentionedKeywords]
  | (name, item) :: keywords =>
      obtain ⟨_, _, itemEvaluated, h⟩ := outcome_bind_eq_ok_iff.mp h
      obtain ⟨_, _, keywordsEvaluated, _⟩ := outcome_bind_eq_ok_iff.mp h
      exact bound_append.mpr
        ⟨bound_of_eval item itemEvaluated, bound_of_evalKeywords keywords keywordsEvaluated⟩
termination_by sizeOf keywords

end

/-- An expression with an unbound free name fails, since all free names of a value are bound. -/
theorem eval_eq_error_of_unbound {scope : Scope} {e : Expr} {name : String}
    (free : name ∈ e.freeNames) (unbound : scope.value? name = none) (draws : Draws)
    : ∃ error rest, (e.eval scope).outcome draws = (.error error, rest) := by
  rcases outcome : (e.eval scope).outcome draws with ⟨result, rest⟩
  cases result with
  | error error => exact ⟨error, rest, rfl⟩
  | ok value =>
      have bound := bound_of_eval e outcome name (mem_freeNames.mp free)
      rw [unbound] at bound
      exact nomatch bound

end QuizVariants.Expr
