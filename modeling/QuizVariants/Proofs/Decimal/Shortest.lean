import QuizVariants.Proofs.Decimal.Conversion

/-! Shortest decimals.
The decimal that a float is written as lies in the interval of the float: seventeen digits always
do. -/

namespace QuizVariants.Decimal

/-- The whole number nearest to a quotient is at most one half away from it, by cases on how twice
the remainder compares. -/
theorem Quotient.nearest_near (tie : Tie) {q : Quotient} (pos : 0 < q.den)
    : |(q.nearest tie : ℚ) - q.toRat| ≤ 1 / 2 := by
  have den : (0 : ℚ) < q.den := by exact_mod_cast pos
  obtain ⟨rest, isRest⟩ : ∃ rest : ℚ, rest = (q.num % q.den : ℕ) / q.den := ⟨_, rfl⟩
  have value : q.toRat = (q.num / q.den : ℕ) + rest := by
    have divided : (q.num : ℚ) = (q.num / q.den : ℕ) * q.den + (q.num % q.den : ℕ) := by
      exact_mod_cast (Nat.div_add_mod' q.num q.den).symm
    rw [toRat, isRest, div_eq_iff den.ne', add_mul, div_mul_cancel₀ _ den.ne']
    exact divided
  have low : 0 ≤ rest := isRest ▸ by positivity
  have high : rest < 1 := by
    rw [isRest, div_lt_one den]
    exact_mod_cast Nat.mod_lt q.num pos
  have twice : 2 * rest = (2 * (q.num % q.den) : ℕ) / q.den := by
    rw [isRest]
    push_cast
    ring
  rw [value, abs_le]
  unfold Quotient.nearest
  dsimp only
  split
  · next less =>
    have half : 2 * rest < 1 := by
      rw [twice, div_lt_one den]
      exact_mod_cast less
    constructor <;> linarith
  · next notLess =>
    have half : 1 ≤ 2 * rest := by
      rw [twice, one_le_div den]
      exact_mod_cast Nat.le_of_not_lt notLess
    split
    · push_cast
      constructor <;> linarith
    · next notMore =>
      have same : 2 * rest ≤ 1 := by
        rw [twice, div_le_one den]
        exact_mod_cast Nat.le_of_not_lt notMore
      cases tie
      · dsimp only
        push_cast
        constructor <;> linarith
      · dsimp only
        split <;> push_cast <;> constructor <;> linarith

/-- A positive quotient has the number of digits before the point that its scale tells. -/
theorem Quotient.pow_scale_le {q : Quotient} (num : 0 < q.num) (den : 0 < q.den)
    : (10 : ℚ) ^ (q.scale - 1) ≤ q.toRat := by
  have den_pos : (0 : ℚ) < q.den := by exact_mod_cast den
  rw [Quotient.toRat, le_div_iff₀ den_pos, Quotient.scale]
  split
  · next whole =>
    have some : 0 < q.num / q.den := Nat.div_pos whole den
    have digits := digitCount_pos (q.num / q.den)
    have power : ((digitCount (q.num / q.den) : ℤ) - 1) = (digitCount (q.num / q.den) - 1 : ℕ) := by
      omega
    have low : 10 ^ (digitCount (q.num / q.den) - 1) * q.den ≤ q.num :=
      (Nat.mul_le_mul_right _ (pow_digitCount_le some)).trans (Nat.div_mul_le_self _ _)
    rw [power, zpow_natCast]
    exact_mod_cast low
  · have high : q.den ≤ q.num * 10 ^ digitCount ((q.den - 1) / q.num) := by
      have less := (Nat.div_lt_iff_lt_mul num).mp (lt_pow_digitCount ((q.den - 1) / q.num))
      rw [Nat.mul_comm]
      omega
    have power : (1 - (digitCount ((q.den - 1) / q.num) : ℤ) - 1)
        = -(digitCount ((q.den - 1) / q.num) : ℤ) := by omega
    rw [power, zpow_neg, zpow_natCast, inv_mul_le_iff₀ (by positivity), mul_comm]
    exact_mod_cast high

/-- Taking off zeros at the end keeps the number, by induction on the steps. -/
theorem Digits.strip_eq {d : Digits} (some : d.digits ≠ 0) (steps : ℕ)
    : (d.strip steps).digits ≠ 0
      ∧ ((d.strip steps).digits : ℚ) * 10 ^ (d.strip steps).exponent
        = d.digits * 10 ^ d.exponent := by
  induction steps generalizing d with
  | zero => exact ⟨some, rfl⟩
  | succ steps ih =>
      rw [Digits.strip]
      split
      · next zero =>
        have tenth : d.digits / 10 * 10 = d.digits := Nat.div_mul_cancel (Nat.dvd_of_mod_eq_zero zero.1)
        obtain ⟨nonzero, same⟩ := @ih ⟨d.digits / 10, d.exponent + 1⟩ (by dsimp only; omega)
        refine ⟨nonzero, same.trans ?_⟩
        rw [zpow_add₀ (by norm_num), zpow_one, mul_comm _ (10 : ℚ), ← mul_assoc]
        exact_mod_cast congrArg (fun n : ℕ => (n : ℚ) * 10 ^ d.exponent) tenth
      · exact ⟨some, rfl⟩

theorem Interval.holds_of_nearest? {tie : Tie} {i : Interval} {step : Quotient} {count : ℕ}
    (h : i.nearest? tie step = some count)
    : i.holds step count = true := by
  unfold Interval.nearest? at h
  dsimp only at h
  generalize Quotient.nearest tie _ = best at h
  split_ifs at h with first same second second
  all_goals
    obtain rfl := Option.some.inj h
    assumption

theorem toRat_magnitude (m : ℕ) (e : ℤ) : (magnitude m e).toRat = m * 2 ^ e := by
  rw [magnitude, Quotient.toRat, Nat.cast_mul, mul_div_assoc]
  change (m : ℚ) * (Quotient.power 2 e).toRat = _
  rw [Quotient.toRat_power, Nat.cast_ofNat]

theorem Interval.Contains.pos {m : ℕ} {e : ℤ} {v : ℚ} (h : (Interval.ofFinite m e).Contains v)
    (some : 0 < m)
    : 0 < v := by
  have power : (0 : ℚ) < 2 ^ e := by positivity
  have one : (1 : ℚ) ≤ m := by exact_mod_cast some
  exact (mul_pos (by linarith [(belowBy_bounds m e).2]) power).trans_le (h.bounds some).1.1

/-- Seventeen digits tell a float from its neighbours. -/
theorem Canonical.lt_belowBy {m : ℕ} {e : ℤ} (h : Canonical m e)
    : (m : ℚ) / (2 * 10 ^ 16) < belowBy m e ∧ (m : ℚ) / (2 * 10 ^ 16) < 1 / 2 := by
  have small : (m : ℚ) < 2 ^ 53 := by exact_mod_cast h.small
  have half : (m : ℚ) / (2 * 10 ^ 16) < 1 / 2 := by
    rw [div_lt_iff₀ (by norm_num)]
    linarith
  refine ⟨?_, half⟩
  unfold belowBy
  split
  · next narrow =>
    rw [narrow.1, impliedBit]
    norm_num
  · exact half

/-- The middle of the interval of a float, counted in steps. -/
theorem Interval.toRat_middle {m : ℕ} {e : ℤ} {step : Quotient} (den : 0 < step.den)
    : (Quotient.mk ((Interval.ofFinite m e).mid * (Interval.ofFinite m e).unit.num * step.den)
        (step.num * (Interval.ofFinite m e).unit.den)).toRat
      = m * 2 ^ e / step.toRat := by
  have unit : (2 : ℚ) ^ e = 4 * 2 ^ (e - 2) := by
    rw [zpow_sub₀ (by norm_num)]
    norm_num
    ring
  have den_pos : (0 : ℚ) < step.den := by exact_mod_cast den
  have parts := Quotient.toRat_power 2 (e - 2)
  rw [Quotient.toRat, Nat.cast_ofNat] at parts
  rw [unit, ← parts, Interval.ofFinite, Quotient.toRat, Quotient.toRat]
  push_cast
  field_simp

/-- A step that is small enough has a multiple in the interval. -/
theorem Canonical.exists_nearest? {m : ℕ} {e : ℤ} (h : Canonical m e) (tie : Tie) {power : ℤ}
    (fine : 10 ^ 16 * (10 : ℚ) ^ power ≤ m * 2 ^ e)
    : ∃ count, (Interval.ofFinite m e).nearest? tie (Quotient.power 10 power) = some count := by
  obtain ⟨step, isStep⟩ : ∃ step, step = Quotient.power 10 power := ⟨_, rfl⟩
  have size : (0 : ℚ) < 10 ^ power := by positivity
  have stepValue : step.toRat = 10 ^ power := isStep ▸ Quotient.toRat_power 10 power
  have stepDen : 0 < step.den := isStep ▸ Quotient.den_power_pos (by decide) power
  have unitDen : 0 < (Interval.ofFinite m e).unit.den := Quotient.den_power_pos (by decide) (e - 2)
  have stepNum : 0 < step.num := isStep ▸ Quotient.num_power_pos (by decide) power
  obtain ⟨best, isBest⟩ : ∃ best, best = Quotient.nearest tie
      ⟨(Interval.ofFinite m e).mid * (Interval.ofFinite m e).unit.num * step.den,
        step.num * (Interval.ofFinite m e).unit.den⟩ := ⟨_, rfl⟩
  have near : |(best : ℚ) - m * 2 ^ e / 10 ^ power| ≤ 1 / 2 := by
    rw [isBest, ← stepValue, ← Interval.toRat_middle stepDen]
    exact Quotient.nearest_near tie (Nat.mul_pos stepNum unitDen)
  have inside : (Interval.ofFinite m e).holds step best = true := by
    obtain ⟨below, above⟩ := h.lt_belowBy
    obtain ⟨low, high⟩ := Interval.ends_ofFinite e h.pos
    have scale : (0 : ℚ) < 2 ^ e := by positivity
    -- Half a step is less than what the interval reaches to either side.
    have half : (10 : ℚ) ^ power / 2 ≤ m / (2 * 10 ^ 16) * 2 ^ e := by
      linarith
    rw [abs_le, neg_le_sub_iff_le_add, sub_le_iff_le_add, div_le_iff₀ size,
      ← sub_le_iff_le_add', le_div_iff₀ size] at near
    refine Interval.holds_of_lt unitDen stepDen ?_ ?_
    · rw [low, stepValue, sub_mul]
      have := mul_lt_mul_of_pos_right below scale
      linarith
    · rw [high, stepValue, add_mul]
      have := mul_lt_mul_of_pos_right above scale
      linarith
  refine ⟨best, ?_⟩
  rw [← isStep, Interval.nearest?]
  simp only [← isBest, inside, ↓reduceIte]

/-- The decimal that a float is written as lies in the interval of the float. -/
theorem Canonical.shortest_mem {m : ℕ} {e : ℤ} (h : Canonical m e) (tie : Tie)
    : 0 < (shortest tie m e).digits
      ∧ (Interval.ofFinite m e).Contains
          ((shortest tie m e).digits * 10 ^ (shortest tie m e).exponent) := by
  obtain ⟨scale, isScale⟩ : ∃ scale, scale = (magnitude m e).scale := ⟨_, rfl⟩
  obtain ⟨found, isFound⟩ : ∃ found : ℕ → Option Digits, found = fun (count : ℕ) =>
      ((Interval.ofFinite m e).nearest? tie (Quotient.power 10 (scale - (count + 1)))).map
        (fun digits => Digits.mk digits (scale - (count + 1))) := ⟨_, rfl⟩
  have unfolded : shortest tie m e = (((List.range 17).findSome? found).getD ⟨0, 0⟩).strip 20 := by
    rw [isFound, isScale]
    rfl
  have last : (found 16).isSome := by
    have fine : 10 ^ 16 * (10 : ℚ) ^ (scale - ((16 : ℕ) + 1)) ≤ m * 2 ^ e := by
      have power : (10 : ℚ) ^ (scale - 1) = 10 ^ 16 * 10 ^ (scale - ((16 : ℕ) + 1)) := by
        rw [← zpow_natCast, ← zpow_add₀ (by norm_num)]
        congr 1
        push_cast
        ring
      rw [← power, isScale, ← toRat_magnitude]
      exact Quotient.pow_scale_le
        (Nat.mul_pos h.pos (Quotient.num_power_pos (by decide) e))
        (Quotient.den_power_pos (by decide) e)
    obtain ⟨count, some⟩ := h.exists_nearest? tie fine
    rw [isFound]
    exact Option.isSome_map.trans (some ▸ rfl)
  have any : ((List.range 17).findSome? found).isSome :=
    List.findSome?_isSome_iff.mpr ⟨16, by decide, last⟩
  obtain ⟨d, taken⟩ := Option.isSome_iff_exists.mp any
  obtain ⟨count, _, hit⟩ := List.exists_of_findSome?_eq_some taken
  rw [isFound] at hit
  obtain ⟨digits, nearest, rfl⟩ := Option.map_eq_some_iff.mp hit
  have inside := Interval.contains_of_holds (Quotient.den_power_pos (by decide) (e - 2))
    (Quotient.den_power_pos (by decide) _) (Interval.holds_of_nearest? nearest)
  rw [Quotient.toRat_power, Nat.cast_ofNat] at inside
  have some : digits ≠ 0 := by
    rintro rfl
    have := inside.pos h.pos
    rw [Nat.cast_zero, zero_mul] at this
    exact lt_irrefl _ this
  obtain ⟨nonzero, same⟩ := @Digits.strip_eq ⟨digits, scale - (count + 1)⟩ some 20
  rw [unfolded, taken, Option.getD_some]
  refine ⟨Nat.pos_of_ne_zero nonzero, ?_⟩
  rw [same]
  exact inside

end QuizVariants.Decimal
