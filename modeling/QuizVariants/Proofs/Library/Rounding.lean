import QuizVariants.Library.Numeric
import QuizVariants.Proofs.Rational.Nearest
import QuizVariants.Proofs.Rational.Overflow

/-! Rounding to places.
A fraction is scaled by a power of ten, rounded to a whole number, and scaled back. The result is
the nearest number with so many places, and only a step that leaves the words keeps it from being
found.
-/

namespace QuizVariants.Library

open Rational

/-- Powers of ten are exact; those with the largest exponents are in no word. -/
theorem pow_ten_eq (digits : Int) : (Rational.integer 10).pow digits = ofRat (10 ^ digits) := by
  have ten : (Rational.integer 10).toRat = 10 := by rw [toRat_integer]; norm_num
  rw [pow_eq, ten, if_neg (fun h => absurd h.2 (by norm_num))]
  split
  · next large =>
    have far : 64 ≤ digits.natAbs := le_trans (by decide) large
    refine (ofRat_eq_overflow_iff.mpr (fun fits => ?_)).symm
    rcases eq_zero_or_unit_of_zpow far fits with zero | unit
    · norm_num at zero
    · norm_num at unit
  · rfl

theorem scale_pos (digits : Int) : (0 : ℚ) < 10 ^ digits :=
  zpow_pos (by norm_num) digits

/-- A number and the scale that it is rounded on are fractions of words, and stay so when the number
is brought to the scale. -/
structure Scales (x : ℚ) (digits : Int) : Prop where
  scale : Representable (10 ^ digits)
  scaled : Representable (x * 10 ^ digits)

/-- A fraction is rounded to the nearest number of units, where all steps stay in words. -/
theorem roundRational_eq_ok_iff {x r : Rational} {digits : Int}
    : roundRational x digits = .ok r
      ↔ Scales x.toRat digits
        ∧ ∃ nearest : ℤ,
            NearestEven nearest (x.toRat * 10 ^ digits) ∧ r.toRat = nearest / 10 ^ digits := by
  have unit := (scale_pos digits).ne'
  rw [roundRational, pow_ten_eq]
  simp only [bind_eq_ok_iff, mul_eq, div_eq, ofRat_eq_ok_iff]
  constructor
  · rintro ⟨scale, isScale, scaled, isScaled, divided⟩
    rw [isScale] at isScaled divided
    rw [if_neg unit, ofRat_eq_ok_iff, toRat_integer] at divided
    refine ⟨⟨isScale ▸ scale.representable_toRat, isScaled ▸ scaled.representable_toRat⟩,
      scaled.round, ?_, divided⟩
    rw [← isScaled]
    exact nearestEven_round scaled
  · rintro ⟨scales, nearest, isNearest, value⟩
    obtain ⟨scale, -, isScale⟩ := exists_ofRat scales.scale
    obtain ⟨scaled, -, isScaled⟩ := exists_ofRat scales.scaled
    rw [← isScaled, nearestEven_toRat_iff] at isNearest
    refine ⟨scale, isScale, scaled, by rw [isScale, isScaled], ?_⟩
    rw [isScale, if_neg unit, ofRat_eq_ok_iff, toRat_integer, ← isNearest, value]

/-- Each step of rounding gives the fraction of its exact result, or there is an overflow. -/
theorem eq_overflow_of_roundRational {x : Rational} {digits : Int} {fault : Fault}
    (h : roundRational x digits = .error fault)
    : fault = .overflow := by
  rw [roundRational, pow_ten_eq] at h
  rcases bind_eq_error_iff.mp h with scale | ⟨scale, isScale, h⟩
  · exact eq_overflow_of_ofRat scale
  rcases bind_eq_error_iff.mp h with scaled | ⟨scaled, -, divided⟩
  · rw [mul_eq] at scaled
    exact eq_overflow_of_ofRat scaled
  · rw [div_eq, ofRat_eq_ok_iff.mp isScale, if_neg (scale_pos digits).ne'] at divided
    exact eq_overflow_of_ofRat divided

/-- What is rounded to a scale is a whole number of its units, so that it stays as it is. -/
theorem roundRational_of_whole {r : Rational} {digits nearest : Int}
    (scale : Representable (10 ^ digits)) (fits : Fits nearest)
    (whole : r.toRat = nearest / 10 ^ digits)
    : roundRational r digits = .ok r := by
  have units : r.toRat * 10 ^ digits = nearest := by
    rw [whole, div_mul_cancel₀ _ (scale_pos digits).ne']
  rw [roundRational_eq_ok_iff]
  refine ⟨⟨scale, units ▸ representable_word fits⟩, nearest, ?_, whole⟩
  rw [units]
  exact .intCast nearest

/-- A number of units is half a unit away from what is rounded to it at most. -/
theorem abs_sub_le_of_nearest {x : ℚ} {digits nearest : Int}
    (h : NearestEven nearest (x * 10 ^ digits))
    : |(nearest / 10 ^ digits : ℚ) - x| ≤ 10 ^ (-digits) / 2 := by
  have positive := scale_pos digits
  have distance : (nearest / 10 ^ digits : ℚ) - x = -(x * 10 ^ digits - nearest) / 10 ^ digits := by
    field_simp
    ring
  rw [distance, abs_div, abs_neg, abs_of_pos positive, zpow_neg, div_le_iff₀ positive]
  calc |x * 10 ^ digits - nearest| ≤ 1 / 2 := h.near
    _ = (10 ^ digits)⁻¹ / 2 * 10 ^ digits := by field_simp

/-- Rounded to no places, a fraction becomes the nearest whole number. -/
theorem roundRational_zero (x : Rational)
    : roundRational x 0 = .ok (.integer x.round x.fits_round) := by
  have one : (10 ^ (0 : Int) : ℚ) = 1 := zpow_zero 10
  rw [roundRational_eq_ok_iff, one, mul_one]
  refine ⟨⟨?_, ?_⟩, x.round, x.nearestEven_round, ?_⟩
  · rw [one]
    exact_mod_cast representable_word fits_one
  · rw [one, mul_one]
    exact x.representable_toRat
  · rw [toRat_integer, div_one]

/-- What a fraction is rounded to is a whole number of units, half a unit away at most, an even one
halfway between two, and stays as it is when it is rounded again. -/
theorem exists_units_of_roundRational {x r : Rational} {digits : Int}
    (h : roundRational x digits = .ok r)
    : ∃ units : ℤ,
        r.toRat * 10 ^ digits = units
        ∧ |r.toRat - x.toRat| ≤ 10 ^ (-digits) / 2
        ∧ ((∃ below : ℤ, x.toRat * 10 ^ digits = below + 1 / 2) → Even units)
        ∧ roundRational r digits = .ok r := by
  obtain ⟨scales, units, nearest, whole⟩ := roundRational_eq_ok_iff.mp h
  refine ⟨units, ?_, ?_, fun ⟨_, halfway⟩ => nearest.even_of_halfway halfway, ?_⟩
  · rw [whole, div_mul_cancel₀ _ (scale_pos _).ne']
  · exact whole ▸ abs_sub_le_of_nearest nearest
  · exact roundRational_of_whole scales.scale (nearest.fits scales.scaled) whole

/-- A fraction is rounded exactly if its scale, the scaled fraction and the result are fractions of
words. -/
theorem exists_roundRational_iff {x : Rational} {digits : Int}
    : (∃ r, roundRational x digits = .ok r)
      ↔ Representable (10 ^ digits) ∧ Representable (x.toRat * 10 ^ digits)
        ∧ ∃ units : ℤ,
            NearestEven units (x.toRat * 10 ^ digits) ∧ Representable (units / 10 ^ digits) := by
  constructor
  · rintro ⟨r, result⟩
    obtain ⟨scales, units, nearest, whole⟩ := roundRational_eq_ok_iff.mp result
    exact ⟨scales.scale, scales.scaled, units, nearest, whole ▸ r.representable_toRat⟩
  · rintro ⟨unit, scaled, units, nearest, fits⟩
    obtain ⟨r, -, whole⟩ := exists_ofRat fits
    exact ⟨r, roundRational_eq_ok_iff.mpr ⟨⟨unit, scaled⟩, units, nearest, whole⟩⟩

/-- A fraction is rounded to the nearest whole number of units of its last place, an even one if two
are nearest; rounded again it stays as it is. There is a result exactly if the scale, the scaled
fraction and the result are fractions of words, and an overflow otherwise. No places at all are the
same as no places given. -/
theorem round_places (x : Rational) (places : Word)
    : let digits : Value := .number (.integer places.toInt places.fits)
      let answer := round ⟨[.number x, digits], []⟩
      let scale : ℚ := 10 ^ places.toInt
      (∀ value,
          answer = .ok value
          → ∃ (r : Rational) (units : ℤ),
              value = .number r
              ∧ r.toRat * scale = units
              ∧ |r.toRat - x.toRat| ≤ 10 ^ (-places.toInt) / 2
              ∧ ((∃ below : ℤ, x.toRat * scale = below + 1 / 2) → Even units)
              ∧ round ⟨[.number r, digits], []⟩ = .ok (.number r))
      ∧ (∀ error, answer = .error error → error = .arithmetic .overflow)
      ∧ ((∃ value, answer = .ok value)
        ↔ Representable scale ∧ Representable (x.toRat * scale)
          ∧ ∃ units : ℤ, NearestEven units (x.toRat * scale) ∧ Representable (units / scale))
      ∧ round ⟨[.number x, .number 0], []⟩ = round ⟨[.number x], []⟩ := by
  intro digits answer scale
  have rounded (r : Rational)
      : round ⟨[.number r, digits], []⟩ = (exactly (roundRational r places.toInt)).map .number :=
    rfl
  refine ⟨fun value returned => ?_, fun error failed => ?_, ?_, ?_⟩
  · obtain ⟨r, result, rfl⟩ := map_eq_ok_iff.mp ((rounded x).symm.trans returned)
    obtain ⟨units, whole, near, even, again⟩ :=
      exists_units_of_roundRational (exactly_eq_ok_iff.mp result)
    refine ⟨r, units, rfl, whole, near, even, ?_⟩
    rw [rounded, again]
    rfl
  · have answered := (rounded x).symm.trans failed
    cases result : roundRational x places.toInt with
    | error fault =>
        rw [result] at answered
        rw [← Except.error.inj answered, eq_overflow_of_roundRational result]
    | ok r =>
        rw [result] at answered
        exact nomatch answered
  · rw [← exists_roundRational_iff]
    constructor
    · rintro ⟨value, returned⟩
      obtain ⟨r, result, -⟩ := map_eq_ok_iff.mp ((rounded x).symm.trans returned)
      exact ⟨r, exactly_eq_ok_iff.mp result⟩
    · rintro ⟨r, result⟩
      refine ⟨.number r, (rounded x).trans ?_⟩
      rw [result]
      rfl
  · change (exactly (roundRational x 0)).map Value.number = _
    rw [roundRational_zero]
    rfl

end QuizVariants.Library
