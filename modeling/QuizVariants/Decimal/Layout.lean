import QuizVariants.Decimal.Shortest

/-! Decimal text of floats.
How a float is written is fixed by a record of decisions; the digits are always the shortest ones
that read back, or a fixed number of places.
-/

namespace QuizVariants.Decimal

/-- The decisions of a way to write floats. -/
structure Layout where
  /-- Where the half between two shortest decimals goes. -/
  tie : Tie
  /-- Whether a number whose first digit counts this power of ten is written without exponent. -/
  positional : Int → Bool
  /-- Whether such a number keeps a point and a zero when it is whole. -/
  pointed : Int → Bool
  /-- Whether a positive exponent has a sign. -/
  signedExponent : Bool
  /-- The text of what is not a number. -/
  nan : String

/-- The text of a run of digits with `exponent` as the power of ten of the last one. -/
def pointText (pointed : Bool) (digits : List Char) (exponent : Int) : List Char :=
  let whole := (digits.length : Int) + exponent
  if 0 ≤ exponent then
    digits ++ List.replicate exponent.toNat '0' ++ (if pointed then ['.', '0'] else [])
  else if 0 < whole then digits.take whole.toNat ++ '.' :: digits.drop whole.toNat
  else '0' :: '.' :: List.replicate (-whole).toNat '0' ++ digits

/-- The text of a run of digits with one digit before the point and an exponent. -/
def exponentText (signedExponent : Bool) (digits : List Char) (first : Int) : List Char :=
  let fraction :=
    match digits with
    | [] => []
    | [digit] => [digit]
    | digit :: more => digit :: '.' :: more
  let sign := if first < 0 then ['-'] else if signedExponent then ['+'] else []
  fraction ++ 'e' :: sign ++ digitsOf first.natAbs

def Layout.digits (layout : Layout) (d : Digits) : List Char :=
  let digits := digitsOf d.digits
  let first := (digits.length : Int) - 1 + d.exponent
  if layout.positional first then pointText (layout.pointed first) digits d.exponent
  else exponentText layout.signedExponent digits first

/-- The sign of a number, when it is shown. -/
def signText (negative : Bool) : List Char :=
  if negative then ['-'] else []

def Layout.write (layout : Layout) (x : Float) : String :=
  match Denotation.ofFloat x with
  | .nan => layout.nan
  | .infinite negative => .ofList (signText negative ++ ['i', 'n', 'f'])
  | .finite negative 0 _ => .ofList (signText negative ++ layout.digits ⟨0, 0⟩)
  | .finite negative mantissa exponent =>
    .ofList (signText negative ++ layout.digits (shortest layout.tie mantissa exponent))

/-- The exponent of the first digit and the digits themselves of a finite float that is not
zero, with one digit before the point. -/
def mantissaForm? (tie : Tie) (x : Float) : Option (Bool × Digits × Int) :=
  match Denotation.ofFloat x with
  | .finite _ 0 _ => none
  | .finite negative mantissa exponent =>
    let d := shortest tie mantissa exponent
    let first := (digitCount d.digits : Int) - 1
    some (negative, ⟨d.digits, -first⟩, first + d.exponent)
  | _ => none

/-- The text of a number with a fixed number of places, its exact value rounded half to even. -/
def fixed (places : Nat) (x : Float) : List Char :=
  match Denotation.ofFloat x with
  | .nan => ['N', 'a', 'N']
  | .infinite negative => signText negative ++ ['i', 'n', 'f']
  | .finite negative mantissa exponent =>
    let size := magnitude mantissa exponent
    let digits := digitsOf (Quotient.nearest .even ⟨size.num * Nat.pow 10 places, size.den⟩)
    let padded := List.replicate (places + 1 - digits.length) '0' ++ digits
    let whole := padded.length - places
    signText negative ++ padded.take whole
      ++ (if places = 0 then [] else '.' :: padded.drop whole)

/-- The plain layout never has an exponent and drops the point of a whole number. -/
def Layout.plain : Layout :=
  { tie := .up
    positional := fun _ => true
    pointed := fun _ => false
    signedExponent := false
    nan := "NaN" }

end QuizVariants.Decimal
