import Mathlib.Data.List.Forall2
import QuizVariants.Proofs.Expr.Dependence
import QuizVariants.Template.Render

/-! Templates in scopes that agree.
Scopes that give every name the same value render a template alike: the same text comes out and the
same placeholders stay, whatever the tables behind the scopes are.
-/

namespace QuizVariants

open QuizVariants.Evaluation
open QuizVariants.Random

/-- Scopes that no expression tells apart by a value. -/
structure Scope.Alike (first second : Scope) : Prop where
  operations : first.SameOperations second
  values : ∀ name, first.value? name = second.value? name
  markup : first.context.algebra.markup = second.context.algebra.markup

/-- Reading an expression does not look at a scope, and its evaluation is alike in alike ones. -/
theorem Scope.Alike.evalRead {first second : Scope} (h : first.Alike second)
    (expression : Except EvalError Expr)
    : Evaluation.Alike (first.evalRead expression) (second.evalRead expression) := by
  refine (Evaluation.Alike.refl _).bind (fun e => ?_)
  exact Expr.eval_alike h.operations e (fun name _ => h.values name)

namespace Template

/-- Rendered templates that show no difference but in the texts of errors. -/
structure Rendered.Alike (first second : Rendered) : Prop where
  text : first.text = second.text
  unresolved : first.unresolved.map Prod.fst = second.unresolved.map Prod.fst

theorem Rendered.Alike.refl (rendered : Rendered) : rendered.Alike rendered :=
  ⟨rfl, rfl⟩

theorem Rendered.Alike.append {first second third fourth : Rendered} (left : first.Alike second)
    (right : third.Alike fourth)
    : (first.append third).Alike (second.append fourth) where
  text := by rw [Rendered.append, Rendered.append, left.text, right.text]
  unresolved := by
    rw [Rendered.append, Rendered.append, List.map_append, List.map_append, left.unresolved,
      right.unresolved]

/-- A piece is rendered alike, by cases on how the evaluation of a placeholder ends. -/
theorem relates_renderPiece {first second : Scope} (h : first.Alike second) (piece : Piece)
    : Relates Rendered.Alike (renderPiece first piece) (renderPiece second piece) := by
  cases piece with
  | literal text => exact .pure (.refl _)
  | slot slot =>
      intro draws
      have ends := h.evalRead slot.expression draws
      simp only [outcome] at ends
      simp only [renderPiece, run_bind]
      generalize (first.evalRead slot.expression).run.run draws = a at ends ⊢
      generalize (second.evalRead slot.expression).run.run draws = b at ends ⊢
      cases ends with
      | value value rest =>
          cases value with
          | string text => exact ⟨.refl _, rfl⟩
          | _ => exact ⟨⟨congrFun h.markup _, rfl⟩, rfl⟩
      | error fault other rest => exact ⟨⟨rfl, rfl⟩, rfl⟩

/-- A template is rendered alike, by induction on its pieces. -/
theorem relates_render {first second : Scope} (h : first.Alike second) (template : Template)
    : Relates Rendered.Alike (render first template) (render second template) := by
  induction template with
  | nil => exact .pure (.refl _)
  | cons piece pieces ih =>
      refine (relates_renderPiece h piece).bind (fun _ _ left => ?_)
      exact ih.bind (fun _ _ right => .pure (left.append right))

end Template

end QuizVariants
