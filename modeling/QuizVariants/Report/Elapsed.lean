import QuizVariants.Decimal.Shortest
import QuizVariants.Json

/-! Spans of time. -/

namespace QuizVariants

open QuizVariants.Decimal

/-- A span of time: whole seconds, and nanoseconds below one second. -/
structure Elapsed where
  seconds : Nat := 0
  nanoseconds : Nat := 0
  deriving Repr, DecidableEq

namespace Elapsed

def perSecond : Nat := 1000000000

def perMillisecond : Nat := 1000000

def perMicrosecond : Nat := 1000

def ofNanoseconds (n : Nat) : Elapsed :=
  ⟨n / perSecond, n % perSecond⟩

/-- The digits of a fraction of `10 ^ places` parts, without zeros at the end. -/
def fractionDigits (places fraction : Nat) : List Char :=
  let digits := digitsOf fraction
  let padded := List.replicate (places - digits.length) '0' ++ digits
  (padded.reverse.dropWhile (· == '0')).reverse

/-- A number of units with the fraction after its point. -/
def inUnits (unit : String) (places whole fraction : Nat) : String :=
  let digits := fractionDigits places fraction
  let point := if digits.isEmpty then [] else '.' :: digits
  .ofList (digitsOf whole ++ point) ++ unit

/-- The text of a span in the greatest unit that it reaches. -/
def text (elapsed : Elapsed) : String :=
  let n := elapsed.nanoseconds
  if 0 < elapsed.seconds then inUnits "s" 9 elapsed.seconds n
  else if perMillisecond ≤ n then
    inUnits "ms" 6 (n / perMillisecond) (n % perMillisecond)
  else if perMicrosecond ≤ n then
    inUnits "µs" 3 (n / perMicrosecond) (n % perMicrosecond)
  else inUnits "ns" 0 n 0

def toJson (elapsed : Elapsed) : Json :=
  .object [("secs", .integer elapsed.seconds), ("nanos", .integer elapsed.nanoseconds)]

end Elapsed

/-- How long it took to fill a batch, and how long to make its plan. -/
structure Timing where
  total : Elapsed := {}
  compile : Elapsed := {}
  deriving Repr, DecidableEq

end QuizVariants
