import QuizVariants.Text.Utf8

/-! Why a source is no problem.
Only bytes that are no text and a section that is opened twice stop the reading of a source.
-/

namespace QuizVariants

/-- Why a source cannot be read. -/
inductive ParseError where
  | notText (fault : Text.Utf8Fault)
  /-- A section's header stands a second time, on the given line counted from one. -/
  | duplicateSection (name : String) (line : Nat)
  deriving Repr, DecidableEq

def ParseError.message : ParseError → String
  | .notText fault => s!"problem source is not valid UTF-8: {fault.message}"
  | .duplicateSection name line => s!"section <<{name}>> opened a second time on line {line}"

end QuizVariants
