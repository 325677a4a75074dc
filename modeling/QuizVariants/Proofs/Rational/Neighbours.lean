import Mathlib.Data.Rat.Floor
import QuizVariants.Proofs.Machine.Fractions
import QuizVariants.Proofs.Rational.Nearest

/-! The whole numbers around a fraction.
The floor is the last whole number up to a fraction and the ceiling the first one from it on. A
fraction is rounded to one of these two, so that they come together where the fraction is whole.
-/

namespace QuizVariants

-----------------------------------------------------------------------------------------
-- Nearest whole numbers
-----------------------------------------------------------------------------------------

namespace NearestEven

/-- No whole number is nearer: two different ones are at least one apart, and the nearest one is
half of that away at most. -/
theorem le_distance {n : ℤ} {q : ℚ} (h : NearestEven n q) (m : ℤ) : |q - n| ≤ |q - m| := by
  rcases eq_or_ne n m with rfl | other
  · exact le_rfl
  have apart : (1 : ℚ) ≤ |(n : ℚ) - m| := by
    exact_mod_cast Int.one_le_abs (sub_ne_zero.mpr other)
  have path := abs_sub_le (n : ℚ) q m
  rw [abs_sub_comm (n : ℚ) q] at path
  linarith [h.near]

/-- The nearest whole number stands between the floor and the ceiling. -/
theorem floor_le {n : ℤ} {q : ℚ} (h : NearestEven n q) : ⌊q⌋ ≤ n := by
  rw [← Int.lt_add_one_iff, Int.floor_lt]
  push_cast
  linarith [(abs_le.mp h.near).2]

theorem le_ceil {n : ℤ} {q : ℚ} (h : NearestEven n q) : n ≤ ⌈q⌉ := by
  rw [← Int.sub_one_lt_iff, Int.lt_ceil]
  push_cast
  linarith [(abs_le.mp h.near).1]

end NearestEven

namespace Rational

-----------------------------------------------------------------------------------------
-- Floor and ceiling
-----------------------------------------------------------------------------------------

/-- A fraction in lowest terms is whole when nothing is left in its denominator. -/
theorem den_eq_one_iff {r : Rational} : r.den = 1 ↔ ∃ n : ℤ, r.toRat = n := by
  rw [← den_toRat]
  constructor
  · intro whole
    exact ⟨r.toRat.num, (Rat.coe_int_num_of_den_eq_one whole).symm⟩
  · rintro ⟨n, same⟩
    rw [same, Rat.den_intCast]

/-- One more than the floor is the ceiling, unless the fraction is whole. -/
theorem ceil_toRat (r : Rational) : ⌈r.toRat⌉ = r.ceil := by
  rw [ceil]
  split
  · next whole =>
    obtain ⟨n, same⟩ := den_eq_one_iff.mp whole
    rw [← floor_toRat, same, Int.ceil_intCast, Int.floor_intCast]
  · next part =>
    have apart : (r.floor : ℚ) ≠ r.toRat := fun same => part (den_eq_one_iff.mpr ⟨_, same.symm⟩)
    rw [← floor_toRat] at apart ⊢
    rw [Int.ceil_eq_iff]
    push_cast
    constructor
    · linarith [lt_of_le_of_ne (Int.floor_le r.toRat) apart]
    · exact (Int.lt_floor_add_one r.toRat).le

/-- The floor is the greatest whole number up to a fraction. -/
theorem isGreatest_floor (r : Rational) : IsGreatest {n : ℤ | (n : ℚ) ≤ r.toRat} r.floor :=
  r.floor_toRat ▸ Int.gc_coe_floor.isGreatest_u

/-- The ceiling is the least whole number from a fraction on. -/
theorem isLeast_ceil (r : Rational) : IsLeast {n : ℤ | r.toRat ≤ n} r.ceil :=
  r.ceil_toRat ▸ Int.gc_ceil_coe.isLeast_l

-----------------------------------------------------------------------------------------
-- All three
-----------------------------------------------------------------------------------------

theorem floor_le_round (r : Rational) : r.floor ≤ r.round :=
  r.floor_toRat ▸ r.nearestEven_round.floor_le

theorem round_le_ceil (r : Rational) : r.round ≤ r.ceil :=
  r.ceil_toRat ▸ r.nearestEven_round.le_ceil

/-- Floor and ceiling come together where a fraction is whole, and nowhere else. -/
theorem floor_eq_ceil_iff {r : Rational} : r.floor = r.ceil ↔ ∃ n : ℤ, r.toRat = n := by
  rw [← den_eq_one_iff, ceil]
  split
  · next whole => exact iff_of_true rfl whole
  · next part => exact iff_of_false (by omega) part

/-- The whole numbers around a fraction.
For every fraction of words the floor is the greatest whole number up to it, the ceiling the least
one from it on, and it is rounded to a whole number that no other one is nearer than, an even one
halfway between two. All three are words, and no step of a machine to one of them is out of range.
They stand in this order and are the same exactly where the fraction is whole.
-/
theorem rounds_to_neighbours (r : Rational)
    : IsGreatest {n : ℤ | (n : ℚ) ≤ r.toRat} r.floor
      ∧ IsLeast {n : ℤ | r.toRat ≤ n} r.ceil
      ∧ (∀ n : ℤ, |r.toRat - r.round| ≤ |r.toRat - n|)
      ∧ ((∃ below : ℤ, r.toRat = below + 1 / 2) → Even r.round)
      ∧ (Fits r.floor ∧ Fits r.ceil ∧ Fits r.round)
      ∧ (Machine.floor r = .ok r.floor ∧ Machine.ceil r = .ok r.ceil
        ∧ Machine.round r = .ok r.round)
      ∧ (r.floor ≤ r.round ∧ r.round ≤ r.ceil)
      ∧ (r.floor = r.round ∧ r.round = r.ceil ↔ ∃ n : ℤ, r.toRat = n) := by
  have nearest := r.nearestEven_round
  have low := r.floor_le_round
  have high := r.round_le_ceil
  refine ⟨r.isGreatest_floor, r.isLeast_ceil, nearest.le_distance,
    fun ⟨_, halfway⟩ => nearest.even_of_halfway halfway,
    ⟨r.fits_floor, r.fits_ceil, r.fits_round⟩,
    ⟨Machine.floor_eq r, Machine.ceil_eq r, Machine.round_eq r⟩, ⟨low, high⟩, ?_⟩
  rw [← floor_eq_ceil_iff]
  omega

/-- The least fraction halfway between two whole numbers is rounded to its floor, which is even. -/
example
    : let r : Rational := ⟨-wordBound + 1, 2, by decide, by decide, by decide, by decide⟩
      r.floor = -0x4000000000000000 ∧ r.round = -0x4000000000000000
        ∧ r.ceil = -0x3fffffffffffffff := by
  decide

end Rational

end QuizVariants
