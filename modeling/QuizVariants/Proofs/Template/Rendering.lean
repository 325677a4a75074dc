import Mathlib.Data.List.Forall2
import QuizVariants.Proofs.Expr.Names
import QuizVariants.Proofs.Expr.Variables
import QuizVariants.Template.Render

/-! Placeholders without a value.
A rendered template is its rendered pieces one after the other. A placeholder that reads a name
without a value stays as it was written, whatever the other pieces become.
-/

namespace QuizVariants.Template

open QuizVariants.Random
open QuizVariants.Evaluation

/-- Rendered pieces one after the other. -/
def Rendered.join : List Rendered → Rendered
  | [] => ⟨"", []⟩
  | first :: rest => first.append (join rest)

/-- What becomes of a piece where `name` has no value: text is kept, and so is a placeholder whose
expression reads the name, which counts once as unresolved.
-/
def Keeps (name : String) : Piece → Rendered → Prop
  | .literal text, rendered => rendered = ⟨text, []⟩
  | .slot slot, rendered =>
      ∀ e,
        Expr.parse slot.source = .ok e
        → name ∈ e.freeNames
        → ∃ error, rendered = ⟨slotText slot.source, [(slot.source, error)]⟩

/-- A rendered template is made of rendered pieces that keep all placeholders which read `name`. -/
def KeepsAll (name : String) (template : Template) (rendered : Rendered) : Prop :=
  ∃ pieces, List.Forall₂ (Keeps name) template pieces ∧ rendered = Rendered.join pieces

/-- A piece keeps a placeholder whose expression fails; witness: the failing name. -/
theorem keeps_renderPiece {scope : Scope} {name : String}
    (unbound : Expr.IsVariable name → scope.value? name = none) (piece : Piece) (draws : Draws)
    : Keeps name piece ((renderPiece scope piece).run draws).1 := by
  cases piece with
  | literal text => rfl
  -- The slot keeps its expression as it was read from its source.
  | slot slot =>
      intro e parsed free
      have read : slot.expression = .ok e := slot.expression_eq.trans parsed
      obtain ⟨error, rest, failed⟩ :=
        Expr.eval_eq_error_of_unbound free (unbound (Expr.isVariable_of_parse parsed free)) draws
      have result : ((scope.evalRead slot.expression).run.run draws).1 = .error error := by
        rw [read]
        exact congrArg Prod.fst failed
      refine ⟨error, ?_⟩
      simp only [renderPiece, run_bind, result]
      rfl

/-- A rendered template keeps every placeholder that reads an unbound name, by induction on its
pieces. -/
theorem keepsAll_render {scope : Scope} {name : String}
    (unbound : Expr.IsVariable name → scope.value? name = none) (template : Template)
    (draws : Draws)
    : KeepsAll name template ((render scope template).run draws).1 := by
  induction template generalizing draws with
  | nil => exact ⟨[], .nil, rfl⟩
  | cons piece pieces ih =>
      obtain ⟨rendered, kept, joined⟩ := ih ((renderPiece scope piece).run draws).2
      refine ⟨((renderPiece scope piece).run draws).1 :: rendered,
        .cons (keeps_renderPiece unbound piece draws) kept, ?_⟩
      simp only [render, run_bind, run_pure, Rendered.join, joined]

end QuizVariants.Template
