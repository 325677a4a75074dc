import QuizVariants.Decimal.Binary

/-! Shortest decimals.
Of all decimals that round to a given float, the shortest ones are the first to meet the interval
of numbers nearest to it, and the nearest of those is taken.
-/

namespace QuizVariants.Decimal

/-- The number `digits · 10 ^ exponent`. -/
structure Digits where
  digits : Nat
  exponent : Int
  deriving Repr, DecidableEq

def digitsOf (n : Nat) : List Char :=
  Nat.toDigits 10 n

def digitCount (n : Nat) : Nat :=
  (digitsOf n).length

/-- The number of digits before the point of a positive quotient; for a quotient below one tenth
it is minus the number of zeros after the point. -/
def Quotient.scale (q : Quotient) : Int :=
  if q.den ≤ q.num then digitCount (q.num / q.den)
  else 1 - (digitCount ((q.den - 1) / q.num) : Int)

/-- Removes the zeros at the end, `steps` at most. -/
def Digits.strip : (steps : Nat) → Digits → Digits
  | 0, d => d
  | steps + 1, d =>
    if d.digits % 10 = 0 ∧ d.digits ≠ 0 then strip steps ⟨d.digits / 10, d.exponent + 1⟩
    else d

/-- The numbers nearer to a float than to its neighbours, in quarters of its spacing: the ends
belong to it exactly when its mantissa is even, and the lower end is nearer where the spacing
changes. -/
structure Interval where
  low : Nat
  mid : Nat
  high : Nat
  closed : Bool
  unit : Quotient

/-- The interval of a positive float. -/
def Interval.ofFinite (mantissa : Nat) (exponent : Int) : Interval :=
  let narrow := mantissa = impliedBit ∧ leastExponent < exponent
  { low := 4 * mantissa - (if narrow then 1 else 2)
    mid := 4 * mantissa
    high := 4 * mantissa + 2
    closed := mantissa % 2 = 0
    unit := Quotient.power 2 (exponent - 2) }

def Interval.holds (i : Interval) (step : Quotient) (count : Nat) : Bool :=
  let place := count * step.num * i.unit.den
  let low := i.low * i.unit.num * step.den
  let high := i.high * i.unit.num * step.den
  if i.closed then low ≤ place && place ≤ high else low < place && place < high

/-- The multiple of `step` in the interval that is nearest to its middle. -/
def Interval.nearest? (tie : Tie) (i : Interval) (step : Quotient) : Option Nat :=
  let middle := i.mid * i.unit.num * step.den
  let whole := step.num * i.unit.den
  let below := middle / whole
  let best := Quotient.nearest tie ⟨middle, whole⟩
  let other := if best = below then below + 1 else below
  if i.holds step best then some best
  else if i.holds step other then some other
  else none

/-- The shortest decimal that rounds to the positive float `mantissa · 2 ^ exponent`; seventeen
digits always suffice. -/
def shortest (tie : Tie) (mantissa : Nat) (exponent : Int) : Digits :=
  let interval := Interval.ofFinite mantissa exponent
  let scale := (magnitude mantissa exponent).scale
  let found := (List.range 17).findSome? (fun (count : Nat) =>
    let power := scale - (count + 1)
    (interval.nearest? tie (Quotient.power 10 power)).map (fun digits => Digits.mk digits power))
  (found.getD ⟨0, 0⟩).strip 20

end QuizVariants.Decimal
