import Mathlib.Algebra.Order.Field.Power
import QuizVariants.Proofs.Rational.Exactness

/-! Spurious overflows.
A difference is the sum with the opposite, and there is no opposite of the least word. A power does
not take exponents from two to the thirty-second on. These are the only overflows of exact results
with parts that fit in a word.
-/

namespace QuizVariants.Rational

/-- An overflow, although the exact result has parts that fit in a word. -/
def SpuriousOverflow (answer : Except Fault Rational) (result : ℚ) : Prop :=
  answer = .error .overflow ∧ Representable result

/-- Only powers of zero and of units stay representable for large exponents: of any other number
one of the parts is two or more in size. -/
theorem eq_zero_or_unit_of_pow {q : ℚ} {exponent : Nat} (large : 64 ≤ exponent)
    (h : Representable (q ^ exponent))
    : q = 0 ∨ |q| = 1 := by
  obtain ⟨top, bottom⟩ := representable_pow.mp h
  have num : q.num.natAbs < 2 := not_le.mp (fun size => not_fits_pow size large top)
  have den : (q.den : Int).natAbs < 2 := not_le.mp (fun size => not_fits_pow size large bottom)
  have positive := q.den_pos
  have whole : q.den = 1 := by omega
  rw [← Rat.coe_int_num_of_den_eq_one whole]
  obtain zero | one | minus : q.num = 0 ∨ q.num = 1 ∨ q.num = -1 := by omega
  · exact .inl (by rw [zero, Int.cast_zero])
  · exact .inr (by rw [one, Int.cast_one, abs_one])
  · exact .inr (by rw [minus, Int.cast_neg, Int.cast_one, abs_neg, abs_one])

/-- The same for exponents of either sign, since a number is zero or a unit when its reciprocal
is. -/
theorem eq_zero_or_unit_of_zpow {q : ℚ} {exponent : Int} (large : 64 ≤ exponent.natAbs)
    (h : Representable (q ^ exponent))
    : q = 0 ∨ |q| = 1 := by
  rcases exponent.natAbs_eq with size | size
  · rw [size, zpow_natCast] at h
    exact eq_zero_or_unit_of_pow large h
  · rw [size, zpow_neg, zpow_natCast, ← inv_pow] at h
    simpa [abs_inv] using eq_zero_or_unit_of_pow large h

/-- Words are representable; witness: the fraction of a word. -/
theorem representable_word {n : Int} (fits : Fits n)
    : Representable n :=
  toRat_integer n fits ▸ representable_toRat (integer n fits)

/-- Powers of zero and of units are representable. -/
theorem representable_zpow {q : ℚ} (h : q = 0 ∨ |q| = 1) (exponent : Int)
    : Representable (q ^ exponent) := by
  obtain zero | one | minus : q ^ exponent = 0 ∨ q ^ exponent = 1 ∨ q ^ exponent = -1 := by
    rcases h with rfl | unit
    · rcases eq_or_ne exponent 0 with rfl | nonzero
      · exact .inr (.inl (zpow_zero 0))
      · exact .inl (zero_zpow exponent nonzero)
    · refine .inr (eq_or_eq_neg_of_abs_eq ?_)
      rw [abs_zpow, unit, one_zpow]
  · exact zero ▸ representable_word (n := 0) (by decide)
  · exact one ▸ representable_word (n := 1) (by decide)
  · exact minus ▸ representable_word (n := -1) (by decide)

/-- Differences and powers overflow spuriously in these cases alone.
A difference does when the numerator of the subtrahend is the least word, which has no opposite. A
power does for the fractions zero, one and minus one, whose powers never leave a word, when the
exponent reaches the bound. In all other cases both give the fraction of the exact result when there
is one.
-/
theorem spuriousOverflow_iff (a b : Rational) (exponent : Int)
    : a.sub b
        = (if b.num = -wordBound then .error .overflow else ofRat (a.toRat - b.toRat))
      ∧ (SpuriousOverflow (a.sub b) (a.toRat - b.toRat)
        ↔ b.num = -wordBound ∧ Representable (a.toRat - b.toRat))
      ∧ a.pow exponent
        = (if exponent < 0 ∧ a.toRat = 0 then .error .divisionByZero
          else if exponentBound ≤ exponent.natAbs then .error .overflow
          else ofRat (a.toRat ^ exponent))
      ∧ (SpuriousOverflow (a.pow exponent) (a.toRat ^ exponent)
        ↔ exponentBound ≤ exponent.natAbs ∧ (a.toRat = 0 ∧ 0 < exponent ∨ |a.toRat| = 1)) := by
  have bound : 64 ≤ exponentBound := by decide
  refine ⟨sub_eq a b, ?_, pow_eq a exponent, ?_⟩
  · rw [SpuriousOverflow, sub_eq]
    split
    · next least => simp [least]
    · next other => simp [other, ofRat_eq_overflow_iff]
  · rw [SpuriousOverflow, pow_eq]
    split
    · next undefined =>
      refine iff_of_false (fun h => nomatch h.1) ?_
      rintro ⟨_, ⟨_, positive⟩ | unit⟩
      · exact lt_asymm undefined.1 positive
      · simp [undefined.2] at unit
    · next defined =>
      split
      · next large =>
        have nonzero : exponent ≠ 0 := Int.natAbs_ne_zero.mp (by omega)
        simp only [true_and, large]
        constructor
        · intro fits
          refine (eq_zero_or_unit_of_zpow (bound.trans large) fits).imp_left (fun zero => ?_)
          have nonnegative : 0 ≤ exponent := not_lt.mp (fun negative => defined ⟨negative, zero⟩)
          exact ⟨zero, nonnegative.lt_of_ne' nonzero⟩
        · exact fun h => representable_zpow (h.imp_left And.left) exponent
      · next small => simp [small, ofRat_eq_overflow_iff]

/-- The least word taken from minus one leaves the greatest word, and any power of one is one, but
neither is the answer. -/
theorem overflows_spuriously
    : SpuriousOverflow ((integer (-1)).sub (integer (-wordBound)))
        ((integer (-1)).toRat - (integer (-wordBound)).toRat)
      ∧ SpuriousOverflow ((1 : Rational).pow exponentBound)
        ((1 : Rational).toRat ^ (exponentBound : Int)) := by
  refine ⟨⟨rfl, ?_⟩, rfl, representable_zpow (.inr (by simp)) _⟩
  rw [toRat_integer, toRat_integer, ← Int.cast_sub]
  exact representable_word (by decide)

end QuizVariants.Rational
