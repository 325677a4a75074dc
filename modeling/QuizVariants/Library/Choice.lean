import QuizVariants.Draws
import QuizVariants.Library.Progression
import QuizVariants.Value.Text

/-! Random choices.
Numbers are drawn from a progression and values from a list, in both cases leaving out what is
excluded.
-/

namespace QuizVariants.Library

/-- The length up to which all members of a progression are listed before one is drawn. -/
def listedLength : Nat := 4096

/-- The number of draws from a longer progression before giving up. -/
def maxDraws : Nat := 1000

/-- The values that an argument excludes: a list stands for its items. -/
def excludedValues : Option Value → List Value
  | none => []
  | some (.list items) => items
  | some value => [value]

/-- Whether a value is loosely equal to none of the excluded ones. -/
def admits (excluded : List Value) (value : Value) : Bool :=
  !excluded.any (·.looselyEquals value)

/-- Draws members of a progression until one is admissible, `draws` times at most. -/
def drawMember (progression : Progression) (positive : 0 < progression.length)
    (excluded : List Value) : (draws : Nat) → Evaluation Value
  | 0 => throw (.exhaustedSampling Progression.owner maxDraws)
  | draws + 1 => do
    let place ← Evaluation.ofRandom (Random.below progression.length positive)
    let value ← Evaluation.ofExcept (progression.member place)
    if admits excluded value then return value
    else drawMember progression positive excluded draws

def chooseMember (progression : Progression) (excluded : List Value) (low high : Value)
    : Evaluation Value := do
  let noneLeft : EvalError :=
    .invalidArgument Progression.owner (.allExcluded low.text high.text)
  if progression.length ≤ listedLength then
    let members ← Evaluation.ofExcept progression.members
    match ← Evaluation.ofRandom (Random.choose? (members.filter (admits excluded))) with
    | some value => return value
    | none => throw noneLeft
  else if positive : 0 < progression.length then
    drawMember progression positive excluded maxDraws
  else throw noneLeft

/-- The step and the exclusions among the arguments after the two ends: a list alone is
exclusions. -/
def stepAndExclusions : List Value → Option Value × Option Value
  | [.list items] => (none, some (.list items))
  | values => (values[0]?, values[1]?)

/-- A random member of a progression; its step and exclusions may be given by position or by
keyword. -/
def randnum (args : Arguments) : Evaluation Value := do
  let (stepKeyword, args) := args.keyword "step"
  let (excludeKeyword, args) := args.keyword "exclude"
  match ← Evaluation.ofExcept (args.withoutKeywords Progression.owner) with
  | low :: high :: more =>
    if 2 < more.length then throw (.arity Progression.owner "2 to 4" (more.length + 2))
    let (step, exclude) := stepAndExclusions more
    let step := (step <|> stepKeyword).getD (.number 1)
    let progression ← Evaluation.ofExcept (Progression.ofValues low high step)
    chooseMember progression (excludedValues (exclude <|> excludeKeyword)) low high
  | values => throw (.arity Progression.owner "2 to 4" values.length)

/-- The values to choose from without the excluded ones. -/
def candidates (exception : Option Value) (values : List Value) : List Value :=
  (Arguments.spread values).filter (admits (excludedValues exception))

def pickone (args : Arguments) : Evaluation Value := do
  let (exception, args) := args.keyword "exception"
  let values ← Evaluation.ofExcept (args.withoutKeywords "pickone")
  match ← Evaluation.ofRandom (Random.choose? (candidates exception values)) with
  | some value => return value
  | none => throw (.invalidArgument "pickone" .nothingToPick)

/-- Random values from distinct places. -/
def pick (args : Arguments) : Evaluation Value := do
  let (exception, args) := args.keyword "exception"
  match ← Evaluation.ofExcept (args.withoutKeywords "pick") with
  | [] => throw (.arity "pick" "at least 1" 0)
  | count :: values =>
    let count ← Evaluation.ofExcept count.toInteger
    if count < 0 then throw (.invalidArgument "pick" (.negativeCount count))
    let candidates := candidates exception values
    if candidates.length < count.toNat then
      throw (.invalidArgument "pick" (.tooFewCandidates count.toNat candidates.length))
    return .list (← Evaluation.ofRandom (Random.sample count.toNat candidates))

end QuizVariants.Library
