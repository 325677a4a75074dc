import QuizVariants.Draws
import QuizVariants.Json
import QuizVariants.Text.Blank

/-! Variants of a problem.
A variant is a problem with all of its placeholders filled in.
-/

namespace QuizVariants

open QuizVariants.Text

structure Variant where
  id : String := ""
  title : String := ""
  tags : List String := []
  statement : String := ""
  answer : String := ""
  solution : String := ""
  solutionTitle : String := ""
  /-- The rendered choices, the correct one first. -/
  choices : List String := []
  deriving Repr, DecidableEq, Inhabited

namespace Variant

def isMultipleChoice (variant : Variant) : Bool :=
  !variant.choices.isEmpty

/-- The choices in a random order with the place of the correct one, if there are choices. -/
def shuffledChoices? (variant : Variant) : Random (Option (List String × Nat)) := do
  if variant.choices.isEmpty then return none
  else
    let order ← Random.shuffle variant.choices.zipIdx
    return some (order.map Prod.fst, order.findIdx (fun choice => choice.2 == 0))

/-- Whether a response is the answer; outer blanks do not count. -/
def checkAnswer (variant : Variant) (response : String) : Bool :=
  trim response.toList == trim variant.answer.toList

def toJson (variant : Variant) : Json :=
  .object
    [ ("id", .string variant.id),
      ("title", .string variant.title),
      ("tags", .strings variant.tags),
      ("statement", .string variant.statement),
      ("answer", .string variant.answer),
      ("solution", .string variant.solution),
      ("solution_title", .string variant.solutionTitle),
      ("choices", .strings variant.choices) ]

end Variant

end QuizVariants
