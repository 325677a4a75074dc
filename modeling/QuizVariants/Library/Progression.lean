import QuizVariants.Decimal.Layout
import QuizVariants.Library.Arguments
import QuizVariants.Rational.Rounding

/-! Arithmetic progressions.
A progression starts at a number and goes on by a positive step up to a greatest number; its
members are exact when its start and its step are.
-/

namespace QuizVariants.Library

open QuizVariants.Decimal

/-- A progression of `length` members. -/
structure Progression where
  start : Value
  step : Value
  length : Nat

namespace Progression

def owner : String := "randnum"

/-- The number of steps from `low` that stay below or at `high`. -/
def rationalSpan (low high step : Rational) : Except EvalError Nat := do
  if step.order 0 != .gt then .error (.invalidArgument owner .stepNotPositive)
  else if high.order low == .lt then
    .error (.invalidArgument owner (.emptyRange low.text high.text))
  else
    let span ← exactly (do (← high.sub low).div step)
    return span.floor.toNat

/-- The number of steps from `low` to `high` when one of the numbers is a float; it has to fit
in a word. -/
def floatSpan (low high step : Float) : Except EvalError Nat :=
  if step.isNaN || step ≤ 0.0 then .error (.invalidArgument owner .stepNotPositive)
  else if high.isNaN || low.isNaN || high < low then
    .error (.invalidArgument owner
      (.emptyRange (Layout.plain.write low) (Layout.plain.write high)))
  else
    match Decimal.floor? ((high - low) / step) with
    | some span => if span < wordBound then .ok span.toNat else .error (.arithmetic .overflow)
    | none => .error (.arithmetic .overflow)

/-- The float nearest to a number. -/
def nearest (number : Value) : Float :=
  number.toFloat?.getD 0.0

/-- The progression that three numbers describe. -/
def ofValues (low high step : Value) : Except EvalError Progression := do
  requireNumber owner low
  requireNumber owner high
  requireNumber owner step
  let span ←
    match low, high, step with
    | .number low, .number high, .number step => rationalSpan low high step
    | low, high, step => floatSpan (nearest low) (nearest high) (nearest step)
  return ⟨low, step, span + 1⟩

def member (progression : Progression) (place : Nat) : Except EvalError Value :=
  match Word.ofInt? place with
  | none => .error (.arithmetic .overflow)
  | some place =>
    match progression.start, progression.step with
    | .number start, .number step =>
      (exactly (do start.add (← step.mul (.integer place.toInt place.fits)))).map .number
    | start, step => .ok (.float (nearest start + Float.ofInt place.toInt * nearest step))

def members (progression : Progression) : Except EvalError (List Value) :=
  (List.range progression.length).mapM progression.member

end Progression

end QuizVariants.Library
