import Mathlib.Data.Nat.GCD.Basic
import Mathlib.Data.Nat.Prime.Basic
import Mathlib.Data.Rat.Floor
import Mathlib.Tactic.Tauto
import QuizVariants.Expr.Operation
import QuizVariants.Proofs.Rational.Overflow

/-! Remainders of words.
The remainder of two words is a word, but the way to it is longer than that: the quotient, the
multiple of the divisor at its floor and the opposite of that multiple have to fit as well. The
remainder is exact when they do, and an overflow when one of them does not.
-/

namespace QuizVariants.Operation

open QuizVariants.Rational

-----------------------------------------------------------------------------------------
-- The way to a remainder
-----------------------------------------------------------------------------------------

/-- The multiple of a divisor that a remainder leaves out. -/
def multipleBelow (x y : ℚ) : ℚ :=
  y * ⌊x / y⌋

/-- A remainder is exact when the quotient, the multiple and the opposite of the multiple are
fractions of words. -/
theorem remainder_eq (a b : Rational)
    : remainder a b
        = if b.toRat = 0 then .error .divisionByZero
          else if Representable (a.toRat / b.toRat)
              ∧ Representable (multipleBelow a.toRat b.toRat)
              ∧ (multipleBelow a.toRat b.toRat).num ≠ -wordBound then
            ofRat (a.toRat - multipleBelow a.toRat b.toRat)
          else .error .overflow := by
  rw [remainder, div_eq]
  split
  · rfl
  by_cases fits : Representable (a.toRat / b.toRat)
  · obtain ⟨quotient, divided, ratio⟩ := exists_ofRat fits
    have multiple : b.toRat * (integer quotient.floor quotient.fits_floor).toRat
        = multipleBelow a.toRat b.toRat := by
      rw [toRat_integer, ← floor_toRat, ratio, multipleBelow]
    rw [divided]
    change (do a.sub (← b.mul (integer quotient.floor quotient.fits_floor))) = _
    rw [mul_eq, multiple]
    by_cases below : Representable (multipleBelow a.toRat b.toRat)
    · obtain ⟨product, multiplied, value⟩ := exists_ofRat below
      rw [multiplied]
      change a.sub product = _
      rw [sub_eq, ← num_toRat, value]
      by_cases least : (multipleBelow a.toRat b.toRat).num = -wordBound
      · rw [if_pos least, if_neg (fun all => all.2.2 least)]
      · rw [if_neg least, if_pos ⟨fits, below, least⟩]
    · rw [ofRat_eq_overflow_iff.mpr below, if_neg (fun all => below all.2.1)]
      rfl
  · rw [ofRat_eq_overflow_iff.mpr fits, if_neg (fun all => fits all.1)]
    rfl

-----------------------------------------------------------------------------------------
-- Quotients of words
-----------------------------------------------------------------------------------------

/-- The bound of the words is a power of two, so that it has no divisor in common with odd numbers
alone. -/
theorem gcd_wordBound_eq_one_iff {n : Int} : wordBound.gcd n = 1 ↔ Odd n := by
  have power : wordBound.natAbs = 2 ^ 63 := by decide
  rw [← Int.natAbs_odd, ← Nat.coprime_two_left, Int.gcd, power]
  exact Nat.coprime_pow_left_iff (by decide) 2 n.natAbs

/-- The parts of a quotient of words, with their greatest common divisor cancelled. -/
theorem parts_quotient {a b : Int} (nonzero : b ≠ 0)
    : (a / b : ℚ).num = b.sign * (a / a.gcd b) ∧ (a / b : ℚ).den = b.natAbs / a.gcd b := by
  constructor
  · rw [← Rat.divInt_eq_div, Rat.num_divInt, Int.gcd_comm,
      Int.mul_ediv_assoc _ (Int.gcd_dvd_left a b)]
  · rw [← Rat.divInt_eq_div, Rat.den_divInt, if_neg nonzero, Int.gcd_comm]

/-- A part that is divided by two or more is at most half a word in size. -/
theorem natAbs_ediv_le {n : Int} {d : Nat} (fits : Fits n) (several : 2 ≤ d)
    (divides : (d : Int) ∣ n)
    : 2 * (n / d).natAbs ≤ wordBound.natAbs := by
  have product : (n / d).natAbs * d = n.natAbs := by
    rw [← Int.natAbs_natCast d, ← Int.natAbs_mul, Int.natAbs_natCast, Int.ediv_mul_cancel divides]
  have size : n.natAbs ≤ wordBound.natAbs := by
    unfold Fits wordBound at *
    omega
  calc 2 * (n / d).natAbs
    _ ≤ (n / d).natAbs * d := by rw [Nat.mul_comm]; exact Nat.mul_le_mul_left _ several
    _ ≤ wordBound.natAbs := product.trans_le size

/-- A quotient of words is no fraction of words in two cases alone: the numerator that the least
word gets under a negative divisor is too large, or the denominator that the least word is. -/
theorem representable_quotient_iff {a b : Int} (top : Fits a) (bottom : Fits b) (nonzero : b ≠ 0)
    : Representable (a / b : ℚ)
      ↔ ¬ (a = -wordBound ∧ b < 0 ∧ Odd b) ∧ ¬ (b = -wordBound ∧ Odd a) := by
  obtain ⟨num, den⟩ := @parts_quotient a b nonzero
  have common : 0 < a.gcd b := Int.gcd_pos_of_ne_zero_right a nonzero
  have oddDivisor (least : a = -wordBound) : Odd b ↔ a.gcd b = 1 := by
    rw [least, Int.neg_gcd, gcd_wordBound_eq_one_iff]
  have oddDividend (least : b = -wordBound) : Odd a ↔ a.gcd b = 1 := by
    rw [least, Int.gcd_neg, Int.gcd_comm, gcd_wordBound_eq_one_iff]
  rw [Representable, num, den]
  rcases Nat.lt_or_ge 1 (a.gcd b) with several | one
  · -- What is left of a word after cancelling has room for a sign.
    have left := natAbs_ediv_le top several (Int.gcd_dvd_left a b)
    have right := natAbs_ediv_le bottom several (Int.gcd_dvd_right a b)
    rw [Int.natAbs_ediv_of_dvd (Int.gcd_dvd_right a b), Int.natAbs_natCast] at right
    refine iff_of_true ⟨?_, ?_⟩ ⟨?_, ?_⟩
    · rcases Int.sign_trichotomy b with sign | sign | sign <;> rw [sign] <;>
        unfold Fits wordBound at * <;> omega
    · unfold Fits wordBound at *
      omega
    · exact fun least => several.ne' ((oddDivisor least.1).mp least.2.2)
    · exact fun least => several.ne' ((oddDividend least.1).mp least.2)
  · have coprime : a.gcd b = 1 := by omega
    have dividend : (a = -wordBound ∧ b < 0 ∧ Odd b) ↔ a = -wordBound ∧ b < 0 :=
      ⟨fun h => ⟨h.1, h.2.1⟩, fun h => ⟨h.1, h.2, (oddDivisor h.1).mpr coprime⟩⟩
    have divisor : (b = -wordBound ∧ Odd a) ↔ b = -wordBound :=
      ⟨fun h => h.1, fun h => ⟨h, (oddDividend h).mpr coprime⟩⟩
    rw [dividend, divisor, coprime, Nat.cast_one, Int.ediv_one, Nat.div_one]
    rcases lt_or_gt_of_ne nonzero with negative | positive
    · rw [Int.sign_eq_neg_one_of_neg negative]
      unfold Fits wordBound at *
      omega
    · rw [Int.sign_eq_one_of_pos positive]
      unfold Fits wordBound at *
      omega

-----------------------------------------------------------------------------------------
-- Remainders of words
-----------------------------------------------------------------------------------------

/-- Some number on the way from two words to their remainder is no word: a part of the quotient in
lowest terms, or the multiple that the remainder leaves out, or the opposite of that multiple. -/
def LeavesWords (a b : Int) : Prop :=
  a = -wordBound ∧ b < 0 ∧ Odd b
  ∨ b = -wordBound ∧ Odd a
  ∨ wordBound ≤ |b * ⌊(a / b : ℚ)⌋|

/-- What a multiple at the floor of a quotient leaves out has the sign of the divisor and is smaller
in size. -/
theorem sub_mul_floor_bounds {a b : Int} (nonzero : b ≠ 0)
    : let rest := a - b * ⌊(a / b : ℚ)⌋
      0 ≤ rest ∧ rest < b ∨ b < rest ∧ rest ≤ 0 := by
  intro rest
  have value : (rest : ℚ) = b * (a / b - ⌊(a / b : ℚ)⌋) := by
    have divisor : (b : ℚ) ≠ 0 := Int.cast_ne_zero.mpr nonzero
    push_cast [rest]
    field_simp
  have above : 0 ≤ (a / b : ℚ) - ⌊(a / b : ℚ)⌋ := sub_nonneg.mpr (Int.floor_le _)
  have below : (a / b : ℚ) - ⌊(a / b : ℚ)⌋ < 1 := by
    rw [sub_lt_iff_lt_add']
    exact Int.lt_floor_add_one _
  rcases lt_or_gt_of_ne nonzero with negative | positive
  · have divisor : (b : ℚ) < 0 := Int.cast_lt_zero.mpr negative
    have small : (b : ℚ) < rest := by
      rw [value]
      simpa using mul_lt_mul_of_neg_left below divisor
    have sign : (rest : ℚ) ≤ 0 := by
      rw [value]
      exact mul_nonpos_of_nonpos_of_nonneg divisor.le above
    exact Or.inr ⟨Int.cast_lt.mp small, Int.cast_nonpos.mp sign⟩
  · have divisor : (0 : ℚ) < b := Int.cast_pos.mpr positive
    have sign : 0 ≤ (rest : ℚ) := by
      rw [value]
      exact mul_nonneg divisor.le above
    have small : (rest : ℚ) < b := by
      rw [value]
      exact mul_lt_of_lt_one_right divisor below
    exact Or.inl ⟨Int.cast_nonneg_iff.mp sign, Int.cast_lt.mp small⟩

/-- The way to the remainder of two words stays among the words if it does not go too far. -/
theorem leavesWords_iff {a b : Int} (top : Fits a) (bottom : Fits b) (nonzero : b ≠ 0)
    : LeavesWords a b
      ↔ ¬ (Representable (a / b : ℚ)
        ∧ Representable (multipleBelow a b)
        ∧ (multipleBelow a b).num ≠ -wordBound) := by
  have whole : multipleBelow a b = ((b * ⌊(a / b : ℚ)⌋ : Int) : ℚ) := by
    rw [multipleBelow, Int.cast_mul]
  have within {n : Int} : Fits n ∧ n ≠ -wordBound ↔ ¬ wordBound ≤ |n| := by
    rw [not_le, abs_lt]
    unfold Fits wordBound
    omega
  rw [LeavesWords, whole, representable_intCast_iff, Rat.num_intCast, within,
    representable_quotient_iff top bottom nonzero]
  tauto

/-- The remainder of two words is a word, but not always the answer.
What is left of a word after the multiple of the divisor at the floor of the quotient is a word, has
the sign of the divisor and is smaller in size. It is the answer if no number on the way to it
leaves the words, and otherwise the answer is an overflow. Zero as a divisor, and nothing else, is
answered by a division by zero.
-/
theorem remainder_words (algebra : HostAlgebra) (a b : Word)
    : let answer :=
        binary algebra (.arithmetic .rem) (.number (.integer a.toInt a.fits))
          (.number (.integer b.toInt b.fits))
      let rest := a.toInt - b.toInt * ⌊(a.toInt / b.toInt : ℚ)⌋
      (b.toInt = 0
        ∨ Fits rest ∧ (0 ≤ rest ∧ rest < b.toInt ∨ b.toInt < rest ∧ rest ≤ 0))
      ∧ (answer = .error (.arithmetic .divisionByZero) ↔ b.toInt = 0)
      ∧ (answer = .error (.arithmetic .overflow)
        ↔ b.toInt ≠ 0 ∧ LeavesWords a.toInt b.toInt)
      ∧ ∀ value,
          answer = .ok value
          ↔ b.toInt ≠ 0 ∧ ¬ LeavesWords a.toInt b.toInt
            ∧ ∃ fits, value = .number (.integer rest fits) := by
  intro answer rest
  have exactly_answer : answer
      = (exactly (remainder (.integer a.toInt a.fits) (.integer b.toInt b.fits))).map .number :=
    rfl
  by_cases zero : b.toInt = 0
  · have divided : answer = .error (.arithmetic .divisionByZero) := by
      rw [exactly_answer, remainder_eq, toRat_integer, toRat_integer, zero, Int.cast_zero,
        if_pos rfl]
      rfl
    rw [divided]
    simp [zero]
  have bounds : 0 ≤ rest ∧ rest < b.toInt ∨ b.toInt < rest ∧ rest ≤ 0 :=
    sub_mul_floor_bounds zero
  have fits : Fits rest := by
    have top := a.fits
    have bottom := b.fits
    unfold Fits at *
    omega
  have ratio : (b.toInt : ℚ) ≠ 0 := Int.cast_ne_zero.mpr zero
  have way := leavesWords_iff a.fits b.fits zero
  rw [exactly_answer, remainder_eq, toRat_integer, toRat_integer, if_neg ratio]
  by_cases leaves : LeavesWords a.toInt b.toInt
  · rw [if_neg (way.mp leaves)]
    simp [exactly, Except.map, Except.mapError, zero, fits, bounds, leaves]
  · have value : (a.toInt : ℚ) - multipleBelow a.toInt b.toInt = (rest : ℚ) := by
      rw [multipleBelow]
      push_cast [rest]
      rfl
    have result : ofRat (a.toInt - multipleBelow a.toInt b.toInt) = .ok (.integer rest fits) :=
      ofRat_eq_ok_iff.mpr ((toRat_integer rest fits).trans value.symm)
    rw [if_pos (not_not.mp (mt way.mpr leaves)), result]
    simp [exactly, Except.map, Except.mapError, zero, fits, bounds, leaves, eq_comm]

/-- The least word is even, but its remainder by two is an overflow. -/
theorem remainder_of_least
    : binary (.exact []) (.arithmetic .rem) (.number (.integer (-wordBound)))
        (.number (.integer 2))
        = .error (.arithmetic .overflow)
      ∧ -wordBound = 2 * -0x4000000000000000 + 0 ∧ (0 : Int) ≤ 0 ∧ (0 : Int) < 2 :=
  ⟨rfl, by decide, by decide, by decide⟩

end QuizVariants.Operation
