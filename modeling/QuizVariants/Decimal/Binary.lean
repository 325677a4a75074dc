/-! The numbers that floats denote.
A finite float is a whole number times a power of two, so what a float denotes is held exactly
and every rounding below is done on whole numbers.
-/

namespace QuizVariants.Decimal

/-- What a float denotes: no number, an infinity, or plus or minus `mantissa · 2 ^ exponent`. -/
inductive Denotation where
  | nan
  | infinite (negative : Bool)
  | finite (negative : Bool) (mantissa : Nat) (exponent : Int)
  deriving Repr, DecidableEq

/-- The greatest power of two that divides the spacing of all floats. -/
def leastExponent : Int := -1074

/-- The bit of a mantissa that is not stored, above the fifty-two that are. -/
def impliedBit : Nat := 0x10000000000000

/-- The number of exponents that eleven bits tell apart. -/
def exponentCount : Nat := 0x800

/-- Reads the sign, the eleven bits of the exponent and the fifty-two of the mantissa. -/
def Denotation.ofBits (bits : Nat) : Denotation :=
  let stored := bits % impliedBit
  let biased := bits / impliedBit % exponentCount
  let negative := bits / impliedBit / exponentCount % 2 = 1
  if biased + 1 = exponentCount then if stored = 0 then .infinite negative else .nan
  else if biased = 0 then .finite negative stored leastExponent
  else .finite negative (stored + impliedBit) (leastExponent + (biased - 1 : Nat))

def Denotation.ofFloat (x : Float) : Denotation :=
  .ofBits x.toBits.toNat

structure Quotient where
  num : Nat
  den : Nat
  deriving Repr, DecidableEq

def Quotient.power (base : Nat) (exponent : Int) : Quotient :=
  let size := Nat.pow base exponent.natAbs
  if 0 ≤ exponent then ⟨size, 1⟩ else ⟨1, size⟩

/-- The size of a finite number, as a quotient. -/
def magnitude (mantissa : Nat) (exponent : Int) : Quotient :=
  let unit := Quotient.power 2 exponent
  ⟨mantissa * unit.num, unit.den⟩

/-- Where the half between two neighbours goes. -/
inductive Tie where
  /-- To the greater neighbour. -/
  | up
  /-- To the even neighbour. -/
  | even
  deriving Repr, DecidableEq

/-- The whole number nearest to a quotient. -/
def Quotient.nearest (tie : Tie) (q : Quotient) : Nat :=
  let below := q.num / q.den
  let twice := 2 * (q.num % q.den)
  if twice < q.den then below
  else if q.den < twice then below + 1
  else
    match tie with
    | .up => below + 1
    | .even => if below % 2 = 0 then below else below + 1

def signed (negative : Bool) (size : Nat) : Int :=
  if negative then -(size : Int) else size

/-- The greatest integer at most a finite float. -/
def floor? (x : Float) : Option Int :=
  match Denotation.ofFloat x with
  | .finite negative mantissa exponent =>
    let size := magnitude mantissa exponent
    some (Int.fdiv (signed negative size.num) size.den)
  | _ => none

/-- The least integer at least a finite float. -/
def ceil? (x : Float) : Option Int :=
  match Denotation.ofFloat x with
  | .finite negative mantissa exponent =>
    let size := magnitude mantissa exponent
    some (-Int.fdiv (signed (!negative) size.num) size.den)
  | _ => none

/-- The integer nearest to a finite float, a half going to the even neighbour. -/
def nearest? (x : Float) : Option Int :=
  match Denotation.ofFloat x with
  | .finite negative mantissa exponent =>
    some (signed negative ((magnitude mantissa exponent).nearest .even))
  | _ => none

/-- The integer that a float denotes, if it denotes one. -/
def integer? (x : Float) : Option Int :=
  match Denotation.ofFloat x with
  | .finite negative mantissa exponent =>
    let size := magnitude mantissa exponent
    if size.num % size.den = 0 then some (signed negative (size.num / size.den)) else none
  | _ => none

def infinity : Float := Float.ofBits 0x7FF0000000000000

def withSign (negative : Bool) (size : Float) : Float :=
  if negative then -size else size

/-- Rounds a float to a whole one, a half going to the even neighbour; the sign is kept, also
that of a zero. -/
def roundEven (x : Float) : Float :=
  match Denotation.ofFloat x with
  | .finite negative mantissa exponent =>
    if 0 ≤ exponent then x
    else withSign negative (Float.ofNat ((magnitude mantissa exponent).nearest .even))
  | _ => x

/-- The float nearest to a quotient of integers, both rounded first. -/
def ratio (num : Int) (den : Nat) : Float :=
  Float.ofInt num / Float.ofNat den

/-- The float `ten ^ exponent` by repeated squaring, in `steps` at most. -/
def squarePower (base power : Float) : (steps exponent : Nat) → Float
  | 0, _ => power
  | steps + 1, exponent =>
    if exponent = 0 then power
    else
      let power := if exponent % 2 = 1 then power * base else power
      squarePower (base * base) power steps (exponent / 2)

/-- Ten to an integer power; a negative power is the reciprocal of the positive one. -/
def powerOfTen (exponent : Int) : Float :=
  let size := squarePower 10.0 1.0 64 exponent.natAbs
  if exponent < 0 then 1.0 / size else size

end QuizVariants.Decimal
