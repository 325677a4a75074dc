import QuizVariants.Rational.Basic

/-! Rounding of fractions.
The floor, the ceiling and the nearest integer of a fraction always fit in a word.
-/

namespace QuizVariants.Rational

/-- The greatest integer at most a fraction. -/
def floor (r : Rational) : Int :=
  r.num / r.den

/-- The least integer at least a fraction. -/
def ceil (r : Rational) : Int :=
  if r.den = 1 then r.floor else r.floor + 1

/-- The nearest integer, a half going to the even neighbour. -/
def round (r : Rational) : Int :=
  let twice := 2 * (r.num - r.floor * r.den)
  if twice < r.den then r.floor
  else if (r.den : Int) < twice then r.floor + 1
  else if r.floor % 2 = 0 then r.floor
  else r.floor + 1

theorem floor_of_den_eq_one {r : Rational} (h : r.den = 1)
    : r.floor = r.num := by
  simp [floor, h]

/-- A fraction lies between its floor and the next integer. -/
theorem floor_bounds (r : Rational)
    : r.floor * r.den ≤ r.num ∧ r.num < (r.floor + 1) * r.den := by
  have pos : (0 : Int) < r.den := Int.natCast_pos.mpr r.den_pos
  exact ⟨Int.ediv_mul_le r.num (Int.ne_of_gt pos), Int.lt_ediv_add_one_mul_self r.num pos⟩

/-- Dividing by a denominator of at least `k` divides the bounds of a word by `k`. -/
theorem floor_within {r : Rational} {k bound : Int} (den : k ≤ r.den) (positive : 0 < k)
    (top : k * bound = wordBound)
    : -bound ≤ r.floor ∧ r.floor < bound := by
  have pos : (0 : Int) < r.den := Int.natCast_pos.mpr r.den_pos
  have zero : 0 ≤ bound := by
    apply Int.le_of_not_gt
    intro h
    have : k * bound < 0 := Int.mul_neg_of_pos_of_neg positive h
    simp [top, wordBound] at this
  have scaled : k * bound ≤ r.den * bound := Int.mul_le_mul_of_nonneg_right den zero
  have fits := r.num_fits
  simp only [Fits, ← top] at fits
  constructor
  · apply Int.le_ediv_of_mul_le pos
    rw [Int.neg_mul, Int.mul_comm]
    omega
  · apply Int.ediv_lt_of_lt_mul pos
    rw [Int.mul_comm]
    omega

theorem fits_floor (r : Rational)
    : Fits r.floor :=
  floor_within (k := 1) (by have := r.den_pos; omega) (by decide) (by simp)

/-- A fraction that is not whole is far from the ends of a word. -/
theorem fits_floor_add_one {r : Rational} (h : r.den ≠ 1)
    : Fits (r.floor + 1) := by
  have bounds : -(2 ^ 62 : Int) ≤ r.floor ∧ r.floor < 2 ^ 62 :=
    floor_within (k := 2) (by have := r.den_pos; omega) (by decide) (by decide)
  simp only [Fits, wordBound]
  omega

theorem fits_ceil (r : Rational)
    : Fits r.ceil := by
  unfold ceil
  split
  · exact fits_floor r
  · next h => exact fits_floor_add_one h

theorem fits_round (r : Rational)
    : Fits r.round := by
  by_cases h : r.den = 1
  · have value : r.round = r.floor := by
      simp [round, floor, h]
    exact value ▸ fits_floor r
  · unfold round
    dsimp only
    repeat' split
    all_goals first | exact fits_floor r | exact fits_floor_add_one h

end QuizVariants.Rational
