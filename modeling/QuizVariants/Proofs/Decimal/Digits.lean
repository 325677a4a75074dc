import Mathlib.Algebra.Group.Nat.Defs
import QuizVariants.Rational.Basic
import QuizVariants.Decimal.Numeral
import QuizVariants.Decimal.Shortest
import QuizVariants.Proofs.Text.Bare

/-! Digits of numbers.
The digits of a natural number are read back as that number.
-/

namespace QuizVariants.Decimal

open QuizVariants.Text

theorem digitsOf_ne_nil (n : Nat) : digitsOf n ≠ [] :=
  Nat.toDigits_ne_nil

/-- The digits of a number are digits; witness: the base is at most ten. -/
theorem isDigit_of_mem_digitsOf {n : Nat} {c : Char} (h : c ∈ digitsOf n) : isDigit c = true := by
  have digit : c.isDigit = true := Nat.isDigit_of_mem_toDigits (by decide) (by decide) h
  simpa [isDigit, Char.isDigit, Char.le_def] using digit

theorem naturalOf_digitsOf (n : Nat) : naturalOf (digitsOf n) = n := by
  have value : Nat.ofDigitChars 10 (Nat.toDigits 10 n) 0 = n := Nat.ofDigitChars_ten_toDigits
  rwa [Nat.ofDigitChars_eq_foldl] at value

/-- Digits are the decimal writing of a number. -/
theorem ofList_digitsOf (n : Nat) : String.ofList (digitsOf n) = toString n :=
  rfl

/-- Integers are written in decimal with a sign in front, by cases on the sign. -/
theorem ofList_integerText (n : Int) : String.ofList (Rational.integerText n) = toString n := by
  cases n with
  | ofNat n => exact ofList_digitsOf n
  | negSucc n =>
      have signed : toString (Int.negSucc n) = "-" ++ .ofList (digitsOf (n + 1)) := rfl
      rw [Rational.integerText, if_pos (Int.negSucc_lt_zero n), signed, String.ofList_append]
      rfl

theorem digitCount_pos (n : Nat) : 0 < digitCount n :=
  Nat.length_toDigits_pos

theorem lt_pow_digitCount (n : Nat) : n < 10 ^ digitCount n :=
  (Nat.length_toDigits_le_iff (by decide) (digitCount_pos n)).mp (Nat.le_refl _)

/-- A number has no more digits than needed, by cases on whether it has one only. -/
theorem pow_digitCount_le {n : Nat} (pos : 0 < n) : 10 ^ (digitCount n - 1) ≤ n := by
  rcases Nat.eq_zero_or_pos (digitCount n - 1) with one | more
  · rw [one]
    exact pos
  · refine Nat.le_of_not_lt (fun less => ?_)
    have fewer := (Nat.length_toDigits_le_iff (by decide) more).mpr less
    have : (Nat.toDigits 10 n).length = digitCount n := rfl
    omega

/-- A run of digits ends where the text does not go on with one. -/
theorem digitRun_append {digits rest : List Char} (all : ∀ c ∈ digits, isDigit c = true)
    (stops : Stops isDigit rest)
    : digitRun (digits ++ rest) = (digits, rest) := by
  rw [digitRun, takeWhile_append_of_stops all stops, dropWhile_append_of_stops all stops]

/-- Digits on both sides of a point are read up to where they end. -/
theorem Numeral.read?_point {whole fraction rest : List Char} (nonempty : whole ≠ [])
    (all : ∀ c ∈ whole, isDigit c = true) (others : ∀ c ∈ fraction, isDigit c = true)
    (stops : Stops isDigit rest)
    : Numeral.read? (whole ++ '.' :: (fraction ++ rest))
        = some (withExponent whole (some fraction) rest) := by
  have run : whole.isEmpty = false := List.isEmpty_eq_false_iff.mpr nonempty
  rw [Numeral.read?, digitRun_append all (stops_cons.mpr rfl)]
  simp only [run, Bool.false_eq_true, ↓reduceIte, digitRun_append others stops]

/-- Digits that no point follows are the whole part of a numeral. -/
theorem Numeral.read?_whole {whole rest : List Char} (nonempty : whole ≠ [])
    (all : ∀ c ∈ whole, isDigit c = true) (stops : Stops (fun c => isDigit c || c == '.') rest)
    : Numeral.read? (whole ++ rest) = some (withExponent whole none rest) := by
  have run : whole.isEmpty = false := List.isEmpty_eq_false_iff.mpr nonempty
  have ends : Stops isDigit rest := fun c first => (Bool.or_eq_false_iff.mp (stops c first)).1
  rw [Numeral.read?, digitRun_append all ends]
  simp only [run, Bool.false_eq_true, ↓reduceIte]
  split
  · next point => exact Bool.noConfusion (stops_cons.mp stops)
  · rfl

/-- Digits that neither a point nor a word follows are a numeral without fraction and exponent. -/
theorem Numeral.read?_append {digits rest : List Char} (nonempty : digits ≠ [])
    (all : ∀ c ∈ digits, isDigit c = true)
    (stops : Stops (fun c => continuesName c || c == '.') rest)
    : Numeral.read? (digits ++ rest) = some (⟨digits, none, none⟩, rest) := by
  have ends : Stops (fun c => isDigit c || c == '.') rest := fun c first => by
    obtain ⟨word, point⟩ := Bool.or_eq_false_iff.mp (stops c first)
    exact Bool.or_eq_false_iff.mpr ⟨(Bool.or_eq_false_iff.mp word).2, point⟩
  have plain : withExponent digits none rest = (⟨digits, none, none⟩, rest) := by
    cases rest with
    | nil => rfl
    | cons c rest =>
        obtain ⟨word, _⟩ := Bool.or_eq_false_iff.mp (stops_cons.mp stops)
        have mark : ¬ (c = 'e' ∨ c = 'E') := by
          rintro (rfl | rfl) <;> exact Bool.noConfusion word
        simp only [withExponent, exponent?, if_neg mark]
  rw [Numeral.read?_whole nonempty all ends, plain]

/-- The digits of a number are read up to their end. -/
theorem digitRun_digitsOf (n : Nat) : digitRun (digitsOf n) = (digitsOf n, []) := by
  have run := digitRun_append (fun _ member => isDigit_of_mem_digitsOf (n := n) member)
    (stops_nil isDigit)
  rwa [List.append_nil] at run

/-- Digits alone are a numeral without point and exponent. -/
theorem Numeral.read?_digitsOf (n : Nat)
    : Numeral.read? (digitsOf n) = some (⟨digitsOf n, none, none⟩, []) := by
  have read := Numeral.read?_append (digitsOf_ne_nil n) (fun _ => isDigit_of_mem_digitsOf)
    (stops_nil _)
  rwa [List.append_nil] at read

end QuizVariants.Decimal
