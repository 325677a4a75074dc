import QuizVariants.Decimal.Binary
import QuizVariants.Text.Word

/-! Decimal numerals.
A numeral is a run of digits with an optional fraction and an optional power of ten; its value is
the nearest float.
-/

namespace QuizVariants.Decimal

open QuizVariants.Text

/-- The natural number that a run of digits denotes. -/
def naturalOf (digits : List Char) : Nat :=
  digits.foldl (fun n digit => 10 * n + (digit.toNat - '0'.toNat)) 0

/-- A numeral without sign; `fraction` holds the digits after the point, if there is a point. -/
structure Numeral where
  whole : List Char
  fraction : Option (List Char)
  exponent : Option (Bool × List Char)
  deriving Repr, DecidableEq

/-- The digits at the start of a text, with what follows. -/
def digitRun (text : List Char) : List Char × List Char :=
  (text.takeWhile isDigit, text.dropWhile isDigit)

/-- Reads a power of ten: `e` or `E`, an optional sign, and at least one digit. -/
def exponent? : List Char → Option ((Bool × List Char) × List Char)
  | [] => none
  | mark :: text =>
    if mark = 'e' ∨ mark = 'E' then
      let (negative, text) :=
        match text with
        | '-' :: rest => (true, rest)
        | '+' :: rest => (false, rest)
        | _ => (false, text)
      let (digits, rest) := digitRun text
      if digits.isEmpty then none else some ((negative, digits), rest)
    else none

def withExponent (whole : List Char) (fraction : Option (List Char)) (text : List Char)
    : Numeral × List Char :=
  match exponent? text with
  | some (exponent, rest) => (⟨whole, fraction, some exponent⟩, rest)
  | none => (⟨whole, fraction, none⟩, text)

def Numeral.read? (text : List Char) : Option (Numeral × List Char) :=
  let (whole, rest) := digitRun text
  if whole.isEmpty then
    match rest with
    | '.' :: rest =>
      let (fraction, rest) := digitRun rest
      if fraction.isEmpty then none else some (withExponent [] (some fraction) rest)
    | _ => none
  else
    match rest with
    | '.' :: rest =>
      let (fraction, rest) := digitRun rest
      some (withExponent whole (some fraction) rest)
    | _ => some (withExponent whole none rest)

/-- The natural number that a numeral without point and power of ten denotes. -/
def Numeral.natural? (n : Numeral) : Option Nat :=
  match n.fraction, n.exponent with
  | none, none => some (naturalOf n.whole)
  | _, _ => none

/-- The float nearest to `mantissa · 10 ^ exponent`. Numbers far outside the range of floats are
settled by their number of digits alone. -/
def nearestFloat (mantissa : Nat) (exponent : Int) : Float :=
  let scale := ((Nat.toDigits 10 mantissa).length : Int) + exponent
  if mantissa = 0 ∨ scale < -330 then 0.0
  else if 320 < scale then infinity
  else Float.ofScientific mantissa (exponent < 0) exponent.natAbs

def Numeral.toFloat (n : Numeral) : Float :=
  let fraction := n.fraction.getD []
  let power : Int :=
    match n.exponent with
    | none => 0
    | some (negative, digits) => signed negative (naturalOf digits)
  nearestFloat (naturalOf (n.whole ++ fraction)) (power - fraction.length)

end QuizVariants.Decimal
