import QuizVariants.Decimal.Shortest

/-! Exact fractions.
A rational is a fraction in lowest terms whose numerator and denominator fit in a signed word of
sixty-four bits; an operation fails when its exact result does not.
-/

namespace QuizVariants

/-- The least number above all words, two to the sixty-third. -/
def wordBound : Int := 0x8000000000000000

/-- Whether an integer fits in a signed word. -/
def Fits (n : Int) : Prop :=
  -wordBound ≤ n ∧ n < wordBound

instance (n : Int) : Decidable (Fits n) :=
  inferInstanceAs (Decidable (_ ∧ _))

theorem fits_one : Fits 1 := by decide

theorem fits_two : Fits 2 := by decide

/-- An integer that fits in a signed word. -/
structure Word where
  toInt : Int
  fits : Fits toInt
  deriving Repr, DecidableEq

def Word.ofInt? (n : Int) : Option Word :=
  if fits : Fits n then some ⟨n, fits⟩ else none

/-- A fraction in lowest terms with parts that fit in a word. -/
structure Rational where
  num : Int
  den : Nat
  den_pos : 0 < den
  reduced : num.natAbs.Coprime den
  num_fits : Fits num
  den_fits : Fits den
  deriving Repr, DecidableEq

namespace Rational

/-- Why arithmetic on rationals has no result. -/
inductive Fault where
  | divisionByZero
  | overflow
  deriving Repr, DecidableEq

/-- A fraction is determined by its parts. -/
theorem ext_parts {a b : Rational} (num : a.num = b.num) (den : a.den = b.den)
    : a = b := by
  cases a
  cases b
  simp_all

def integer (n : Int) (fits : Fits n := by decide) : Rational :=
  { num := n
    den := 1
    den_pos := by decide
    reduced := Nat.coprime_one_right _
    num_fits := fits
    den_fits := by decide }

/-- Dividing both parts by their greatest common divisor leaves them coprime. -/
theorem coprime_div_gcd {num den : Int} (h : den ≠ 0)
    : (den.sign * (num / num.gcd den)).natAbs.Coprime (den.natAbs / num.gcd den) := by
  have pos : 0 < num.gcd den := Int.gcd_pos_of_ne_zero_right num h
  have size : (den.sign * (num / num.gcd den)).natAbs = num.natAbs / num.gcd den := by
    rw [Int.natAbs_mul, Int.natAbs_sign_of_ne_zero h, Nat.one_mul,
      Int.natAbs_ediv_of_dvd (Int.gcd_dvd_left num den), Int.natAbs_natCast]
  rw [size]
  exact Nat.coprime_div_gcd_div_gcd pos

/-- The fraction `num / den` in lowest terms. -/
def ofRatio (num den : Int) : Except Fault Rational :=
  if zero : den = 0 then .error .divisionByZero
  else
    let common := num.gcd den
    let top := den.sign * (num / common)
    let bottom := den.natAbs / common
    if fits : Fits top ∧ Fits bottom then
      .ok
        { num := top
          den := bottom
          den_pos :=
            Nat.div_pos
              (Nat.le_of_dvd (Int.natAbs_pos.mpr zero) (Int.gcd_dvd_natAbs_right num den))
              (Int.gcd_pos_of_ne_zero_right num zero)
          reduced := coprime_div_gcd zero
          num_fits := fits.1
          den_fits := fits.2 }
    else .error .overflow

def isInteger (r : Rational) : Bool :=
  r.den == 1

def isNegative (r : Rational) : Bool :=
  r.num < 0

instance : OfNat Rational 0 := ⟨integer 0⟩

instance : OfNat Rational 1 := ⟨integer 1⟩

def add (a b : Rational) : Except Fault Rational :=
  ofRatio (a.num * b.den + b.num * a.den) (a.den * b.den)

def neg (a : Rational) : Except Fault Rational :=
  ofRatio (-a.num) a.den

/-- The sum with the opposite, so the opposite has to fit too. -/
def sub (a b : Rational) : Except Fault Rational := do
  a.add (← b.neg)

def mul (a b : Rational) : Except Fault Rational :=
  ofRatio (a.num * b.num) (a.den * b.den)

def div (a b : Rational) : Except Fault Rational :=
  ofRatio (a.num * b.den) (a.den * b.num)

def abs (a : Rational) : Except Fault Rational :=
  if a.num < 0 then a.neg else .ok a

/-- An integer power when it fits in a word.
A base of size two or more leaves the word before its sixty-fourth power, and the powers of
smaller bases repeat with period two. -/
def wordPower (base : Int) (exponent : Nat) : Except Fault Int :=
  if 2 ≤ base.natAbs ∧ 64 ≤ exponent then .error .overflow
  else
    let exponent := if 64 ≤ exponent then 2 + exponent % 2 else exponent
    let power := Int.pow base exponent
    if Fits power then .ok power else .error .overflow

/-- The sizes of exponents stay below two to the thirty-second. -/
def exponentBound : Nat := 0x100000000

/-- An integer power; a negative one is a power of the reciprocal. -/
def pow (a : Rational) (exponent : Int) : Except Fault Rational := do
  let base ← if exponent < 0 then (1 : Rational).div a else .ok a
  if exponentBound ≤ exponent.natAbs then .error .overflow
  else
    let top ← wordPower base.num exponent.natAbs
    let bottom ← wordPower base.den exponent.natAbs
    ofRatio top bottom

/-- The order of fractions, by cross multiplication. -/
def order (a b : Rational) : Ordering :=
  compare (a.num * b.den) (b.num * a.den)

instance : Ord Rational := ⟨order⟩

/-- The quotient of the floats nearest to the parts. -/
def toFloat (a : Rational) : Float :=
  Decimal.ratio a.num a.den

def integerText (n : Int) : List Char :=
  (if n < 0 then ['-'] else []) ++ Decimal.digitsOf n.natAbs

/-- The text of a fraction: an integer, or the parts with a slash between them. -/
def text (a : Rational) : String :=
  .ofList (if a.den = 1 then integerText a.num
    else integerText a.num ++ '/' :: Decimal.digitsOf a.den)

end Rational

end QuizVariants
