import QuizVariants.Proofs.Expr.Dependence

/-! Evaluations without random draws.
An expression that calls no random function of the library gives the same value or the same error
on all draws, and leaves them as they are.
-/

namespace QuizVariants

-----------------------------------------------------------------------------------------
-- Evaluations that do not see their draws
-----------------------------------------------------------------------------------------

namespace Evaluation

/-- An evaluation with one outcome, whatever the draws are, none of which it uses. -/
def Steady (action : Evaluation α) : Prop :=
  ∃ result, ∀ draws, action.outcome draws = (result, draws)

theorem Steady.ofExcept (result : Except EvalError α) : Steady (ofExcept result) :=
  ⟨result, fun _ => rfl⟩

theorem Steady.pure (value : α) : Steady (pure value : Evaluation α) :=
  ⟨.ok value, fun _ => rfl⟩

theorem Steady.throw (fault : EvalError) : Steady (throw fault : Evaluation α) :=
  ⟨.error fault, fun _ => rfl⟩

/-- Steady evaluations in a row are steady, by cases on the outcome of the first one. -/
theorem Steady.bind {action : Evaluation α} {next : α → Evaluation β} (h : Steady action)
    (others : ∀ value, Steady (next value))
    : Steady (action >>= next) := by
  obtain ⟨result, first⟩ := h
  cases result with
  | error fault =>
      refine ⟨.error fault, fun draws => ?_⟩
      rw [outcome_bind, first]
  | ok value =>
      obtain ⟨result, second⟩ := others value
      refine ⟨result, fun draws => ?_⟩
      rw [outcome_bind, first, ← second draws]

end Evaluation

open QuizVariants.Evaluation

-----------------------------------------------------------------------------------------
-- Functions that draw
-----------------------------------------------------------------------------------------

/-- Whether a library function makes random draws. -/
def Library.Builtin.isRandom : Library.Builtin → Bool
  | .randnum | .pickone | .pick => true
  | _ => false

theorem Library.Builtin.steady_call {builtin : Library.Builtin} (h : builtin.isRandom = false)
    (args : Library.Arguments)
    : Steady (builtin.call args) := by
  cases builtin with
  | randnum | pickone | pick => exact nomatch h
  | _ => exact .ofExcept _

/-- A name under which a context calls no random function of the library, since the host has a
function of that name or the library has no random one. -/
def Context.CallsSteady (context : Context) (function : String) : Prop :=
  (context.functions.get? function).isSome
  ∨ ∀ builtin, Library.Builtin.ofName? function = some builtin → builtin.isRandom = false

instance (context : Context) (function : String) : Decidable (context.CallsSteady function) :=
  decidable_of_iff
    ((context.functions.get? function).isSome
      ∨ (Library.Builtin.ofName? function).all (fun builtin => !builtin.isRandom))
    (by simp [Context.CallsSteady, Option.all_eq_true])

theorem Scope.steady_call {scope : Scope} {function : String}
    (h : scope.context.CallsSteady function) (args : Library.Arguments)
    : Steady (scope.call function args) := by
  unfold Scope.call
  cases hosted : scope.context.functions.get? function with
  | some run =>
      rcases args.keywords with _ | ⟨⟨key, _⟩, _⟩
      · exact .ofExcept _
      · exact .throw _
  | none =>
      have calm := h.resolve_left (by simp [hosted])
      cases found : Library.Builtin.ofName? function with
      | some builtin => exact Library.Builtin.steady_call (calm builtin found) args
      | none =>
          dsimp only
          split <;> exact .throw _

-----------------------------------------------------------------------------------------
-- Expressions that call none of them
-----------------------------------------------------------------------------------------

namespace Expr

mutual

/-- The functions that an expression calls. -/
def called : Expr → List String
  | .number _ => []
  | .float _ => []
  | .string _ => []
  | .bool _ => []
  | .ident _ => []
  | .list items => calledInItems items
  | .set items => calledInItems items
  | .unary _ operand => called operand
  | .binary _ left right => called left ++ called right
  | .call function positional keywords =>
      function :: (calledInItems positional ++ calledInKeywords keywords)
  | .index target position => called target ++ called position

def calledInItems : List Expr → List String
  | [] => []
  | item :: items => called item ++ calledInItems items

def calledInKeywords : List (String × Expr) → List String
  | [] => []
  | (_, value) :: keywords => called value ++ calledInKeywords keywords

end

/-- Names under which a context calls no random function of the library. -/
def AllSteady (context : Context) (functions : List String) : Prop :=
  ∀ function ∈ functions, context.CallsSteady function

instance (context : Context) (functions : List String) : Decidable (AllSteady context functions) :=
  inferInstanceAs (Decidable (∀ function ∈ functions, _))

theorem allSteady_append {context : Context} {first second : List String}
    : AllSteady context (first ++ second)
      ↔ AllSteady context first ∧ AllSteady context second :=
  List.forall_mem_append

mutual

/-- An expression without random calls is steady, by cases on it. -/
theorem steady_eval {scope : Scope} (e : Expr) (h : AllSteady scope.context e.called)
    : Steady (e.eval scope) := by
  cases e with
  | number _ | float _ | string _ | bool _ => exact .pure _
  | ident name =>
      unfold eval
      split
      · exact .pure _
      · exact .throw _
  | list items => exact (steady_evalItems items h).bind (fun _ => .pure _)
  | set items => exact (steady_evalItems items h).bind (fun _ => .pure _)
  | unary op operand => exact (steady_eval operand h).bind (fun _ => .ofExcept _)
  | binary op left right =>
      obtain ⟨hleft, hright⟩ := allSteady_append.mp h
      refine (steady_eval left hleft).bind (fun _ => ?_)
      exact (steady_eval right hright).bind (fun _ => .ofExcept _)
  | call function positional keywords =>
      obtain ⟨own, inside⟩ := List.forall_mem_cons.mp h
      obtain ⟨hpositional, hkeywords⟩ := allSteady_append.mp inside
      refine (steady_evalItems positional hpositional).bind (fun _ => ?_)
      refine (steady_evalKeywords keywords hkeywords).bind (fun _ => ?_)
      exact scope.steady_call own _
  | index target position =>
      obtain ⟨htarget, hposition⟩ := allSteady_append.mp h
      refine (steady_eval target htarget).bind (fun _ => ?_)
      exact (steady_eval position hposition).bind (fun _ => .ofExcept _)
termination_by sizeOf e

/-- Items without random calls are steady, by induction on them. -/
theorem steady_evalItems {scope : Scope} (items : List Expr)
    (h : AllSteady scope.context (calledInItems items))
    : Steady (evalItems scope items) := by
  cases items with
  | nil => exact .pure _
  | cons item items =>
      obtain ⟨hitem, hitems⟩ := allSteady_append.mp h
      refine (steady_eval item hitem).bind (fun _ => ?_)
      exact (steady_evalItems items hitems).bind (fun _ => .pure _)
termination_by sizeOf items

/-- Keyword arguments without random calls are steady, by induction on them. -/
theorem steady_evalKeywords {scope : Scope} (keywords : List (String × Expr))
    (h : AllSteady scope.context (calledInKeywords keywords))
    : Steady (evalKeywords scope keywords) := by
  match keywords with
  | [] => exact .pure _
  | (name, item) :: keywords =>
      obtain ⟨hitem, hkeywords⟩ := allSteady_append.mp h
      refine (steady_eval item hitem).bind (fun _ => ?_)
      exact (steady_evalKeywords keywords hkeywords).bind (fun _ => .pure _)
termination_by sizeOf keywords

end

end Expr

/-- Reading an expression makes no draws, so that its evaluation is steady if it calls nothing
random. -/
theorem Scope.steady_evalRead {scope : Scope} {expression : Except EvalError Expr}
    (h : ∀ e, expression = .ok e → Expr.AllSteady scope.context e.called)
    : Steady (scope.evalRead expression) := by
  cases expression with
  | error fault => exact ⟨.error fault, fun _ => rfl⟩
  | ok e => exact Expr.steady_eval e (h e rfl)

end QuizVariants
