import QuizVariants.Expr.Eval
import QuizVariants.Template.Basic

/-! Rendered templates.
Placeholders are evaluated from left to right, each of them once, and what they give is never
looked at again. A placeholder without a value stays as it was written.
-/

namespace QuizVariants.Template

/-- A rendered template: its text, and the placeholders without a value in order. -/
structure Rendered where
  text : String
  unresolved : List (String × EvalError)
  deriving Repr, DecidableEq

/-- A rendered piece comes before the pieces after it. -/
def Rendered.append (a b : Rendered) : Rendered :=
  ⟨a.text ++ b.text, a.unresolved ++ b.unresolved⟩

def renderPiece (scope : Scope) : Piece → Random Rendered
  | .literal text => return ⟨text, []⟩
  | .slot slot => do
    match ← (scope.evalRead slot.expression).run with
    | .ok (.string text) => return ⟨text, []⟩
    | .ok value => return ⟨scope.context.algebra.markup value, []⟩
    | .error error => return ⟨slotText slot.source, [(slot.source, error)]⟩

def render (scope : Scope) : Template → Random Rendered
  | [] => return ⟨"", []⟩
  | piece :: pieces => do
    let first ← renderPiece scope piece
    let rest ← render scope pieces
    return first.append rest

/-- The warnings about placeholders without a value. -/
def Rendered.warnings (rendered : Rendered) : List Warning :=
  rendered.unresolved.map (fun entry => .placeholderUnresolved entry.1 entry.2)

def substitute (scope : Scope) (text : String) : Random Rendered :=
  render scope (compile text)

end QuizVariants.Template
