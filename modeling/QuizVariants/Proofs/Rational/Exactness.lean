import Mathlib.Algebra.Order.Floor.Ring
import Mathlib.Data.Rat.Floor
import Mathlib.Tactic.FieldSimp
import Mathlib.Tactic.LinearCombination
import Mathlib.Tactic.Push
import QuizVariants.Proofs.Except
import QuizVariants.Rational.Rounding

/-! Exact arithmetic.
A fraction denotes a rational number. An operation gives the fraction of its exact result, and an
overflow when there is no such fraction; only differences and powers know another overflow, as a
step on their way to the result can fail before it.
-/

namespace QuizVariants.Rational

/-- The rational number that a fraction denotes. -/
def toRat (a : Rational) : ℚ :=
  a.num / a.den

theorem den_ne_zero (a : Rational) : (a.den : ℚ) ≠ 0 := by
  have := a.den_pos
  positivity

/-- Words denote themselves. -/
@[simp]
theorem toRat_integer (n : Int) (fits : Fits n)
    : (integer n fits).toRat = n := by
  simp [toRat, integer]

@[simp]
theorem toRat_one : (1 : Rational).toRat = 1 := by
  exact (toRat_integer 1 (by decide)).trans Int.cast_one

theorem toRat_eq_zero_iff {a : Rational}
    : a.toRat = 0 ↔ a.num = 0 := by
  simp [toRat, a.den_ne_zero]

@[simp]
theorem toRat_zero : (0 : Rational).toRat = 0 :=
  toRat_eq_zero_iff.mpr rfl

theorem toRat_of_isInteger {a : Rational} (h : a.isInteger = true)
    : a.toRat = a.num := by
  have den : a.den = 1 := eq_of_beq h
  simp [toRat, den]

/-- The parts of a fraction are those of the rational number that it denotes. -/
theorem toRat_eq_mk (a : Rational)
    : a.toRat = Rat.mk' a.num a.den a.den_pos.ne' a.reduced := by
  rw [Rat.mk_eq_divInt, Rat.divInt_eq_div]
  simp [toRat]

theorem num_toRat (a : Rational)
    : a.toRat.num = a.num := by
  rw [toRat_eq_mk]

theorem den_toRat (a : Rational)
    : a.toRat.den = a.den := by
  rw [toRat_eq_mk]

/-- A fraction in lowest terms is whole only when its denominator is one. -/
theorem isInteger_iff {a : Rational}
    : a.isInteger = true ↔ a.toRat.den = 1 := by
  simp [den_toRat, isInteger]

-----------------------------------------------------------------------------------------
-- The fraction of a rational number
-----------------------------------------------------------------------------------------

/-- Rational numbers with parts that fit in a word when they are in lowest terms. -/
def Representable (q : ℚ) : Prop :=
  Fits q.num ∧ Fits q.den

instance (q : ℚ) : Decidable (Representable q) :=
  inferInstanceAs (Decidable (_ ∧ _))

/-- The fraction that denotes a rational number; without one there is an overflow. -/
def ofRat (q : ℚ) : Except Fault Rational :=
  if fits : Representable q then
    .ok
      { num := q.num
        den := q.den
        den_pos := q.den_pos
        reduced := q.reduced
        num_fits := fits.1
        den_fits := fits.2 }
  else .error .overflow

theorem representable_toRat (a : Rational)
    : Representable a.toRat := by
  rw [Representable, num_toRat, den_toRat]
  exact ⟨a.num_fits, a.den_fits⟩

/-- Whole numbers are fractions of words when they are words. -/
theorem representable_intCast_iff {n : Int} : Representable n ↔ Fits n := by
  rw [Representable, Rat.num_intCast, Rat.den_intCast]
  exact and_iff_left fits_one

/-- There is one fraction of a rational number at most. -/
theorem toRat_injective {a b : Rational} (h : a.toRat = b.toRat)
    : a = b := by
  refine ext_parts ?_ ?_
  · rw [← num_toRat, h, num_toRat]
  · rw [← den_toRat, h, den_toRat]

theorem ofRat_eq_ok_iff {q : ℚ} {r : Rational}
    : ofRat q = .ok r ↔ r.toRat = q := by
  constructor
  · intro h
    rw [ofRat] at h
    split at h
    · obtain rfl := Except.ok.inj h
      exact (toRat_eq_mk _).trans rfl
    · cases h
  · rintro rfl
    rw [ofRat, dif_pos r.representable_toRat]
    exact congrArg Except.ok (ext_parts r.num_toRat r.den_toRat)

theorem ofRat_toRat (a : Rational)
    : ofRat a.toRat = .ok a :=
  ofRat_eq_ok_iff.mpr rfl

theorem exists_ofRat {q : ℚ} (h : Representable q)
    : ∃ r, ofRat q = .ok r ∧ r.toRat = q := by
  refine ⟨_, dif_pos h, ?_⟩
  exact ofRat_eq_ok_iff.mp (dif_pos h)

theorem eq_overflow_of_ofRat {q : ℚ} {fault : Fault} (h : ofRat q = .error fault)
    : fault = .overflow := by
  rw [ofRat] at h
  split at h
  · cases h
  · exact (Except.error.inj h).symm

theorem ofRat_eq_overflow_iff {q : ℚ}
    : ofRat q = .error .overflow ↔ ¬ Representable q := by
  refine ⟨fun overflow fits => ?_, fun unfit => dif_neg unfit⟩
  obtain ⟨r, fraction, _⟩ := exists_ofRat fits
  exact nomatch fraction.symm.trans overflow

-----------------------------------------------------------------------------------------
-- Every operation gives the fraction of its exact result
-----------------------------------------------------------------------------------------

/-- Cancelling the greatest common divisor and moving the sign of the denominator to the numerator
gives the quotient in lowest terms. -/
theorem ofRatio_eq_ofRat {num den : Int} {q : ℚ} (nonzero : den ≠ 0) (h : (num / den : ℚ) = q)
    : ofRatio num den = ofRat q := by
  have top : q.num = den.sign * (num / num.gcd den) := by
    rw [← h, ← Rat.divInt_eq_div, Rat.num_divInt, Int.gcd_comm,
      Int.mul_ediv_assoc _ (Int.gcd_dvd_left num den)]
  have bottom : q.den = den.natAbs / num.gcd den := by
    rw [← h, ← Rat.divInt_eq_div, Rat.den_divInt, if_neg nonzero, Int.gcd_comm]
  rw [ofRatio, dif_neg nonzero]
  by_cases fits : Representable q
  · have parts := fits
    rw [Representable, top, bottom] at parts
    rw [ofRat, dif_pos fits]
    exact (dif_pos parts).trans (congrArg Except.ok (ext_parts top.symm bottom.symm))
  · rw [ofRat_eq_overflow_iff.mpr fits]
    rw [Representable, top, bottom] at fits
    exact dif_neg fits

theorem ofRatio_eq (num den : Int)
    : ofRatio num den = if den = 0 then .error .divisionByZero else ofRat (num / den) := by
  split
  · next zero => rw [ofRatio, dif_pos zero]
  · next nonzero => exact ofRatio_eq_ofRat nonzero rfl

theorem neg_eq (a : Rational)
    : a.neg = ofRat (-a.toRat) := by
  refine ofRatio_eq_ofRat (Int.natCast_ne_zero.mpr a.den_pos.ne') ?_
  rw [toRat]
  push_cast
  ring

/-- Denominators are never zero, and neither are their products. -/
theorem den_mul_den_ne_zero (a b : Rational)
    : (a.den * b.den : Int) ≠ 0 :=
  mul_ne_zero (Int.natCast_ne_zero.mpr a.den_pos.ne') (Int.natCast_ne_zero.mpr b.den_pos.ne')

theorem add_eq (a b : Rational)
    : a.add b = ofRat (a.toRat + b.toRat) := by
  refine ofRatio_eq_ofRat (den_mul_den_ne_zero a b) ?_
  rw [toRat, toRat]
  have := a.den_ne_zero
  have := b.den_ne_zero
  push_cast
  field_simp

/-- All fractions but those of one numerator have an opposite. -/
theorem representable_neg_iff (a : Rational)
    : Representable (-a.toRat) ↔ a.num ≠ -wordBound := by
  have fits := a.num_fits
  rw [Representable, Rat.num_neg_eq_neg_num, Rat.neg_den, num_toRat, den_toRat,
    and_iff_left a.den_fits]
  unfold Fits at fits ⊢
  omega

/-- A difference is exact where the opposite of the subtrahend fits in a word, and an overflow for
the one numerator without an opposite. -/
theorem sub_eq (a b : Rational)
    : a.sub b
        = if b.num = -wordBound then .error .overflow else ofRat (a.toRat - b.toRat) := by
  rw [sub, neg_eq]
  have opposite := b.representable_neg_iff
  split
  · next least => rw [ofRat_eq_overflow_iff.mpr (mt opposite.mp (not_not.mpr least))]; rfl
  · next other =>
    obtain ⟨r, fraction, denotes⟩ := exists_ofRat (opposite.mpr other)
    rw [fraction, sub_eq_add_neg, ← denotes]
    exact add_eq a r

theorem mul_eq (a b : Rational)
    : a.mul b = ofRat (a.toRat * b.toRat) := by
  refine ofRatio_eq_ofRat (den_mul_den_ne_zero a b) ?_
  rw [toRat, toRat, div_mul_div_comm]
  push_cast
  rfl

theorem div_eq (a b : Rational)
    : a.div b
        = if b.toRat = 0 then .error .divisionByZero else ofRat (a.toRat / b.toRat) := by
  have den : (a.den : Int) ≠ 0 := Int.natCast_ne_zero.mpr a.den_pos.ne'
  split
  · next zero =>
    rw [div, ofRatio_eq, if_pos (mul_eq_zero_of_right _ (toRat_eq_zero_iff.mp zero))]
  · next nonzero =>
    refine ofRatio_eq_ofRat (mul_ne_zero den (mt toRat_eq_zero_iff.mpr nonzero)) ?_
    rw [toRat, toRat, div_div_div_eq]
    push_cast
    rfl

theorem toRat_lt_zero_iff {a : Rational}
    : a.toRat < 0 ↔ a.num < 0 := by
  rw [← Rat.num_neg, num_toRat]

theorem abs_eq (a : Rational)
    : a.abs = ofRat |a.toRat| := by
  rw [abs]
  split
  · next negative => rw [neg_eq, abs_of_neg (toRat_lt_zero_iff.mpr negative)]
  · next nonnegative =>
    rw [abs_of_nonneg (not_lt.mp (mt toRat_lt_zero_iff.mp nonnegative)), ofRat_toRat]

/-- All fractions but those of one numerator have a size. -/
theorem representable_abs_iff (a : Rational)
    : Representable |a.toRat| ↔ a.num ≠ -wordBound := by
  have fits := a.num_fits
  rw [Representable, Rat.num_abs_eq_abs_num, Rat.den_abs_eq_den, num_toRat, den_toRat,
    and_iff_left a.den_fits, Int.abs_eq_natAbs]
  unfold Fits wordBound at *
  omega

/-- A fraction has the parts of its size, apart from the sign of the numerator. -/
theorem parts_of_abs {a r : Rational} (h : a.abs = .ok r)
    : r.num = |a.num| ∧ r.den = a.den := by
  have denotes : r.toRat = |a.toRat| := ofRat_eq_ok_iff.mp (a.abs_eq ▸ h)
  refine ⟨?_, ?_⟩
  · rw [← num_toRat, denotes, Rat.num_abs_eq_abs_num, num_toRat]
  · rw [← den_toRat, denotes, Rat.den_abs_eq_den, den_toRat]

-----------------------------------------------------------------------------------------
-- Powers
-----------------------------------------------------------------------------------------

/-- The powers of a base below two in size repeat with period two. -/
theorem pow_of_small {base : Int} {exponent : Nat} (small : base.natAbs < 2)
    (large : 2 ≤ exponent)
    : base ^ (2 + exponent % 2) = base ^ exponent := by
  have parity : base ^ exponent = base ^ (2 * (exponent / 2)) * base ^ (exponent % 2) := by
    rw [← pow_add, Nat.div_add_mod]
  have halves : exponent / 2 ≠ 0 := by omega
  obtain rfl | rfl | rfl : base = 0 ∨ base = 1 ∨ base = -1 := by omega
  · rw [parity, pow_add, pow_mul]
    simp [halves]
  · simp
  · rw [parity, pow_add, pow_mul]
    simp

/-- A base fits in a word when a power of it does: the power is at least as large in size. -/
theorem fits_of_fits_pow {base : Int} {exponent : Nat} (positive : exponent ≠ 0)
    (h : Fits (base ^ exponent))
    : Fits base := by
  have size : |base| ≤ |base ^ exponent| := by
    rcases eq_or_ne base 0 with rfl | nonzero
    · simp [positive]
    · rw [abs_pow]
      exact le_self_pow₀ (Int.one_le_abs nonzero) positive
  unfold Fits at h ⊢
  rcases le_or_gt 0 base with nonnegative | negative
  · rw [abs_of_nonneg nonnegative, abs_of_nonneg (pow_nonneg nonnegative exponent)] at size
    exact ⟨by omega, size.trans_lt h.2⟩
  · have within : |base ^ exponent| ≤ wordBound := abs_le.mpr ⟨h.1, h.2.le⟩
    rw [abs_of_neg negative] at size
    exact ⟨by omega, negative.trans (by decide)⟩

/-- A large power of a base of size two or more does not fit in a word. -/
theorem not_fits_pow {base : Int} {exponent : Nat} (size : 2 ≤ base.natAbs)
    (large : 64 ≤ exponent)
    : ¬ Fits (base ^ exponent) := by
  have least : 2 ^ 64 ≤ base.natAbs ^ exponent :=
    (Nat.pow_le_pow_left size 64).trans (Nat.pow_le_pow_right (by omega) large)
  rw [← Int.natAbs_pow] at least
  unfold Fits wordBound
  omega

/-- A power of words is exact when it fits. -/
theorem wordPower_eq (base : Int) (exponent : Nat)
    : wordPower base exponent
        = if Fits (base ^ exponent) then .ok (base ^ exponent) else .error .overflow := by
  rw [wordPower]
  split
  · next far => rw [if_neg (not_fits_pow far.1 far.2)]
  · next near =>
    have same : Int.pow base (if 64 ≤ exponent then 2 + exponent % 2 else exponent)
        = base ^ exponent := by
      change base ^ _ = _
      split
      · next large => exact pow_of_small (by omega) (by omega)
      · rfl
    dsimp only
    rw [same]

/-- A power of a rational number is representable when those of its parts are. -/
theorem representable_pow {q : ℚ} {exponent : Nat}
    : Representable (q ^ exponent)
      ↔ Fits (q.num ^ exponent) ∧ Fits ((q.den : Int) ^ exponent) := by
  rw [Representable, Rat.num_pow, Rat.den_pow, Nat.cast_pow]

theorem representable_of_pow {q : ℚ} {exponent : Nat} (positive : exponent ≠ 0)
    (h : Representable (q ^ exponent))
    : Representable q := by
  obtain ⟨top, bottom⟩ := representable_pow.mp h
  exact ⟨fits_of_fits_pow positive top, fits_of_fits_pow positive bottom⟩

/-- The fraction of the powers of both parts is the power of the fraction. -/
theorem natPow_eq (a : Rational) (exponent : Nat)
    : (do
        let top ← wordPower a.num exponent
        let bottom ← wordPower a.den exponent
        ofRatio top bottom)
        = ofRat (a.toRat ^ exponent) := by
  have parts : Representable (a.toRat ^ exponent)
      ↔ Fits (a.num ^ exponent) ∧ Fits ((a.den : Int) ^ exponent) := by
    rw [representable_pow, num_toRat, den_toRat]
  rw [wordPower_eq, wordPower_eq]
  by_cases top : Fits (a.num ^ exponent)
  · by_cases bottom : Fits ((a.den : Int) ^ exponent)
    · rw [if_pos top, if_pos bottom]
      refine ofRatio_eq_ofRat (pow_ne_zero _ (Int.natCast_ne_zero.mpr a.den_pos.ne')) ?_
      rw [toRat, div_pow]
      push_cast
      rfl
    · have overflow : ofRat (a.toRat ^ exponent) = .error .overflow :=
        ofRat_eq_overflow_iff.mpr (fun fits => bottom (parts.mp fits).2)
      rw [if_pos top, if_neg bottom, overflow]
      rfl
  · have overflow : ofRat (a.toRat ^ exponent) = .error .overflow :=
      ofRat_eq_overflow_iff.mpr (fun fits => top (parts.mp fits).1)
    rw [if_neg top, overflow]
    rfl

/-- A power is exact for exponents below the bound, and for others there is none.
The reciprocal, which a negative exponent asks for first, is representable when its power is.
-/
theorem pow_eq (a : Rational) (exponent : Int)
    : a.pow exponent
        = if exponent < 0 ∧ a.toRat = 0 then .error .divisionByZero
          else if exponentBound ≤ exponent.natAbs then .error .overflow
          else ofRat (a.toRat ^ exponent) := by
  have natural (base : Rational)
      : (if exponentBound ≤ exponent.natAbs then Except.error Fault.overflow
        else do
          let top ← wordPower base.num exponent.natAbs
          let bottom ← wordPower base.den exponent.natAbs
          ofRatio top bottom)
        = if exponentBound ≤ exponent.natAbs then .error .overflow
          else ofRat (base.toRat ^ exponent.natAbs) := by
    rw [natPow_eq]
  rw [pow]
  by_cases negative : exponent < 0
  · have power : (a.toRat)⁻¹ ^ exponent.natAbs = a.toRat ^ exponent := by
      have size : exponent = -(exponent.natAbs : Int) := by omega
      rw [inv_pow, ← zpow_natCast, ← zpow_neg, ← size]
    rw [if_pos negative, div_eq, toRat_one, one_div]
    by_cases zero : a.toRat = 0
    · rw [if_pos zero, if_pos ⟨negative, zero⟩]
      rfl
    · rw [if_neg zero, if_neg (fun h => zero h.2)]
      by_cases fits : Representable (a.toRat)⁻¹
      · obtain ⟨base, reciprocal, denotes⟩ := exists_ofRat fits
        rw [reciprocal, ← power, ← denotes]
        exact natural base
      · have overflow : ¬ Representable (a.toRat ^ exponent) := by
          rw [← power]
          exact mt (representable_of_pow (Int.natAbs_ne_zero.mpr negative.ne)) fits
        rw [ofRat_eq_overflow_iff.mpr fits, ofRat_eq_overflow_iff.mpr overflow, ite_self]
        rfl
  · have power : a.toRat ^ exponent.natAbs = a.toRat ^ exponent := by
      have size : (exponent.natAbs : Int) = exponent := by omega
      rw [← zpow_natCast, size]
    rw [if_neg negative, if_neg (fun h => negative h.1), ← power]
    exact natural a

-----------------------------------------------------------------------------------------
-- Every operation that has a result is exact
-----------------------------------------------------------------------------------------

theorem toRat_neg {a r : Rational} (h : a.neg = .ok r)
    : r.toRat = -a.toRat :=
  ofRat_eq_ok_iff.mp (a.neg_eq ▸ h)

theorem toRat_add {a b r : Rational} (h : a.add b = .ok r)
    : r.toRat = a.toRat + b.toRat :=
  ofRat_eq_ok_iff.mp (add_eq a b ▸ h)

theorem toRat_sub {a b r : Rational} (h : a.sub b = .ok r)
    : r.toRat = a.toRat - b.toRat := by
  rw [sub_eq] at h
  split at h
  · exact nomatch h
  · exact ofRat_eq_ok_iff.mp h

theorem toRat_mul {a b r : Rational} (h : a.mul b = .ok r)
    : r.toRat = a.toRat * b.toRat :=
  ofRat_eq_ok_iff.mp (mul_eq a b ▸ h)

/-- Only a divisor other than zero has quotients. -/
theorem toRat_div {a b r : Rational} (h : a.div b = .ok r)
    : b.toRat ≠ 0 ∧ r.toRat = a.toRat / b.toRat := by
  rw [div_eq] at h
  split at h
  · exact nomatch h
  · next nonzero => exact ⟨nonzero, ofRat_eq_ok_iff.mp h⟩

/-- A power is exact for exponents of either sign; zero has no negative powers. -/
theorem toRat_pow {a r : Rational} {exponent : Int} (h : a.pow exponent = .ok r)
    : (exponent < 0 → a.toRat ≠ 0) ∧ r.toRat = a.toRat ^ exponent := by
  rw [pow_eq] at h
  split at h
  · exact nomatch h
  next defined =>
  split at h
  · exact nomatch h
  · exact ⟨fun negative zero => defined ⟨negative, zero⟩, ofRat_eq_ok_iff.mp h⟩

-----------------------------------------------------------------------------------------
-- The floor is that of the rational number
-----------------------------------------------------------------------------------------

theorem floor_toRat (a : Rational)
    : ⌊a.toRat⌋ = a.floor := by
  rw [toRat, floor]
  exact Rat.floor_intCast_div_natCast a.num a.den

end QuizVariants.Rational
