import QuizVariants.Proofs.Decimal.Digits
import QuizVariants.Proofs.Decimal.Representation

/-! Decimals converted to floats. -/

namespace QuizVariants.Decimal

open Float.Model Float.Model.UnpackedFloat

-----------------------------------------------------------------------------------------
-- Products and quotients
-----------------------------------------------------------------------------------------

theorem Canonical.mul_eq {m : ℕ} {e : ℤ} (h : Canonical m e) {m₁ m₂ : ℕ} {e₁ e₂ : ℤ}
    (pos₁ : 0 < m₁) (pos₂ : 0 < m₂)
    (inside : (Interval.ofFinite m e).Contains ((m₁ * 2 ^ e₁) * (m₂ * 2 ^ e₂)))
    (large : 2 ^ 52 ≤ m₁ * m₂) (s₁ s₂ : Sign)
    : UnpackedFloat.mul Format.binary64 (.finite s₁ m₁ e₁ pos₁) (.finite s₂ m₂ e₂ pos₂)
        = .finite (s₁ * s₂) m e h.pos := by
  refine h.roundWithAccuracy_eq inside ?_ (Or.inl ?_) _
  · change _ = ((m₁ * m₂ : ℕ) : ℚ)
    rw [zpow_add₀ (by norm_num)]
    push_cast
    field_simp
  · exact (Nat.le_log2 (Nat.mul_pos pos₁ pos₂).ne').mpr large

/-- The remainder of a division tells how the quotient lies to the nearest whole numbers. -/
theorem holds_accuracyOfFraction {num den : ℕ} (pos : 0 < den)
    : Holds (.ofMantissaAndAccuracy (num / den) (accuracyOfFraction (num % den) den))
        (num / den : ℚ) := by
  have den_pos : (0 : ℚ) < den := by exact_mod_cast pos
  have split : (num : ℚ) / den = (num / den : ℕ) + (num % den : ℕ) / den := by
    rw [div_eq_iff den_pos.ne', add_mul, div_mul_cancel₀ _ den_pos.ne']
    exact_mod_cast (Nat.div_add_mod' num den).symm
  have below : ((num % den : ℕ) : ℚ) / den < 1 := by
    rw [div_lt_one den_pos]
    exact_mod_cast Nat.mod_lt num pos
  unfold accuracyOfFraction
  split
  · next none =>
    rw [none, Nat.cast_zero, zero_div, add_zero] at split
    exact split
  · next some =>
    have above : (0 : ℚ) < ((num % den : ℕ) : ℚ) / den := by
      have : (0 : ℚ) < (num % den : ℕ) := by exact_mod_cast Nat.pos_of_ne_zero some
      positivity
    cases order : compare (2 * (num % den)) den with
    | lt =>
        have less : (2 : ℚ) * (num % den : ℕ) < den := by
          exact_mod_cast Nat.compare_eq_lt.mp order
        have half : ((num % den : ℕ) : ℚ) / den < 1 / 2 := by
          rw [div_lt_div_iff₀ den_pos (by norm_num)]
          linarith
        constructor <;> linarith
    | eq =>
        have same : (2 : ℚ) * (num % den : ℕ) = den := by
          exact_mod_cast Nat.compare_eq_eq.mp order
        have half : ((num % den : ℕ) : ℚ) / den = 1 / 2 := by
          rw [div_eq_div_iff den_pos.ne' (by norm_num)]
          linarith
        change _ = _
        linarith
    | gt =>
        have more : (den : ℚ) < 2 * (num % den : ℕ) := by
          exact_mod_cast Nat.compare_eq_gt.mp order
        have half : 1 / 2 < ((num % den : ℕ) : ℚ) / den := by
          rw [div_lt_div_iff₀ (by norm_num) den_pos]
          linarith
        constructor <;> linarith

theorem Canonical.div_eq {m : ℕ} {e : ℤ} (h : Canonical m e) {m₁ m₂ : ℕ} {e₁ e₂ : ℤ}
    (pos₁ : 0 < m₁) (pos₂ : 0 < m₂)
    (inside : (Interval.ofFinite m e).Contains ((m₁ * 2 ^ e₁) / (m₂ * 2 ^ e₂))) (s₁ s₂ : Sign)
    : UnpackedFloat.div Format.binary64 (.finite s₁ m₁ e₁ pos₁) (.finite s₂ m₂ e₂ pos₂)
        = .finite (s₁ / s₂) m e h.pos := by
  -- The exponent of the quotient and the number of bits by which the dividend is shifted.
  obtain ⟨scale, isScale⟩ : ∃ scale, scale = min (e₁ - e₂)
      (Format.binary64.targetExponent (totalExponent m₁ e₁ - totalExponent m₂ e₂)) := ⟨_, rfl⟩
  have target : scale = min (e₁ - e₂) (max (m₁.log2 + e₁ - m₂.log2 - e₂ - 53) (-1074)) := by
    rw [isScale]
    simp only [Format.targetExponent, totalExponent, Format.mantissaBits, Format.minExponent]
    norm_num
    omega
  obtain ⟨shift, isShift⟩ : ∃ shift : ℕ, e₁ - e₂ = scale + shift :=
    ⟨(e₁ - e₂ - scale).toNat, by omega⟩
  have core : divCore Format.binary64 m₁ e₁ m₂ e₂
      = ((m₁ <<< shift) / m₂, scale, accuracyOfFraction ((m₁ <<< shift) % m₂) m₂) := by
    have amount : (e₁ - e₂ - scale).toNat = shift := by omega
    simp only [divCore, ← isScale, amount]
  have shifted : m₁ <<< shift = m₁ * 2 ^ shift := Nat.shiftLeft_eq m₁ shift
  change roundWithAccuracy Format.binary64 (s₁ / s₂) (divCore Format.binary64 m₁ e₁ m₂ e₂).1
    (divCore Format.binary64 m₁ e₁ m₂ e₂).2.1 (divCore Format.binary64 m₁ e₁ m₂ e₂).2.2 = _
  rw [core]
  refine h.roundWithAccuracy_eq inside ?_ ?_ _
  · have value : (m₁ * 2 ^ e₁ : ℚ) / (m₂ * 2 ^ e₂) / 2 ^ scale = (m₁ <<< shift : ℕ) / m₂ := by
      have powers : (2 : ℚ) ^ e₁ = 2 ^ e₂ * 2 ^ scale * 2 ^ shift := by
        rw [← zpow_natCast, ← zpow_add₀ (by norm_num), ← zpow_add₀ (by norm_num)]
        congr 1
        omega
      have divisor : (m₂ : ℚ) ≠ 0 := by exact_mod_cast pos₂.ne'
      rw [shifted, powers]
      push_cast
      field_simp
    rw [value]
    exact holds_accuracyOfFraction pos₂
  · -- Unless the result is among the least floats, the quotient has all bits of a mantissa.
    rcases le_or_gt scale (-1074) with tiny | normal
    · exact Or.inr tiny
    · left
      have bits : m₂.log2 + 53 ≤ m₁.log2 + shift := by omega
      have quotient : 2 ^ 52 * m₂ ≤ m₁ <<< shift := by
        calc 2 ^ 52 * m₂ ≤ 2 ^ 52 * 2 ^ (m₂.log2 + 1) :=
              Nat.mul_le_mul_left _ Nat.lt_log2_self.le
          _ = 2 ^ (m₂.log2 + 53) := by ring
          _ ≤ 2 ^ (m₁.log2 + shift) := Nat.pow_le_pow_right (by decide) bits
          _ = 2 ^ m₁.log2 * 2 ^ shift := pow_add _ _ _
          _ ≤ m₁ * 2 ^ shift := Nat.mul_le_mul_right _ (Nat.log2_self_le pos₁.ne')
          _ = m₁ <<< shift := shifted.symm
      have large := (Nat.le_div_iff_mul_le pos₂).mpr quotient
      exact (Nat.le_log2 (by omega)).mpr large


-----------------------------------------------------------------------------------------
-- Whole numbers and powers of ten
-----------------------------------------------------------------------------------------

/-- The mantissa of a whole number of at most 53 bits, all of which are used. -/
def fullMantissa (n : ℕ) : ℕ :=
  n * 2 ^ (52 - n.log2)

theorem canonical_fullMantissa {n : ℕ} (pos : 0 < n) (small : n < 2 ^ 53) {e : ℤ}
    (least : -1022 ≤ e) (greatest : e ≤ 971)
    : Canonical (fullMantissa n) (e - (52 - n.log2 : ℕ)) := by
  have log : n.log2 < 53 := (Nat.log2_lt pos.ne').mpr small
  obtain ⟨bits, rest⟩ : ∃ bits, n.log2 + bits = 52 := ⟨52 - n.log2, by omega⟩
  have amount : 52 - n.log2 = bits := by omega
  have low : 2 ^ n.log2 * 2 ^ bits ≤ n * 2 ^ bits :=
    Nat.mul_le_mul_right _ (Nat.log2_self_le pos.ne')
  have high : n * 2 ^ bits < 2 ^ (n.log2 + 1) * 2 ^ bits :=
    Nat.mul_lt_mul_of_pos_right Nat.lt_log2_self (Nat.two_pow_pos bits)
  rw [← pow_add, rest] at low
  rw [← pow_add, Nat.add_right_comm, rest] at high
  rw [fullMantissa, amount]
  exact ⟨by omega, high, by omega, by omega, Or.inl low⟩

theorem fullMantissa_mul (n : ℕ) (e : ℤ)
    : (fullMantissa n : ℚ) * 2 ^ (e - (52 - n.log2 : ℕ) : ℤ) = n * 2 ^ e := by
  rw [fullMantissa, zpow_sub₀ (by norm_num), zpow_natCast]
  push_cast
  field_simp

/-- A whole number of at most 53 bits is a float itself. -/
theorem toModel_toFloat {n : ℕ} (pos : 0 < n) (small : n < 2 ^ 53)
    : n.toUInt64.toFloat.toModel
        = .pack (.finite .positive (fullMantissa n) (0 - (52 - n.log2 : ℕ) : ℤ)
            (@canonical_fullMantissa n pos small 0 (by decide) (by decide)).pos) := by
  have same : n.toUInt64.toNat = n := Nat.mod_eq_of_lt (small.trans (by decide))
  have canonical := @canonical_fullMantissa n pos small 0 (by decide) (by decide)
  have compared : compare (n : ℤ) 0 = .gt := by
    rw [compare_gt_iff_gt]
    exact_mod_cast pos
  have inside := Interval.contains_self (0 - (52 - n.log2 : ℕ) : ℤ) canonical.pos
  have log : n.log2 < 53 := (Nat.log2_lt pos.ne').mpr small
  have target : max ((n.log2 : ℤ) + 0 - 52) (-1074) = 0 - (52 - n.log2 : ℕ) := by omega
  have amount : (0 - (0 - (52 - n.log2 : ℕ) : ℤ)).toNat = 52 - n.log2 := by omega
  have shifted : n <<< (52 - n.log2) = fullMantissa n := Nat.shiftLeft_eq n _
  change Float.Model.pack (normalize Format.binary64 (n.toUInt64.toNat : ℤ) 0 .positive) = _
  rw [same]
  simp only [UnpackedFloat.normalize, compared, UnpackedFloat.round, decreaseExponent,
    targetExponent_eq, Int.toNat_natCast, target, amount, shifted]
  refine congrArg Float.Model.pack (canonical.roundWithAccuracy_eq inside ?_ (Or.inl ?_) _)
  · change _ = (fullMantissa n : ℚ)
    exact mul_div_cancel_right₀ _ (by positivity)
  · exact (Nat.le_log2 canonical.pos.ne').mpr (canonical.normal.resolve_right (by omega))

/-- The powers of ten that are floats themselves. -/
theorem toModel_power (e : Fin 23)
    : (Float.exactlyRepresentablePowersOfTen[e.val]).toModel
        = .pack (.finite .positive (fullMantissa (5 ^ e.val)) (e - (52 - (5 ^ e.val).log2 : ℕ) : ℤ)
            (Nat.mul_pos (Nat.pow_pos (by decide)) (Nat.two_pow_pos _))) := by
  revert e
  decide +kernel

-----------------------------------------------------------------------------------------
-- Decimals
-----------------------------------------------------------------------------------------

/-- A number of the interval of a float keeps a distance from zero and from the overflow. -/
theorem Canonical.range {m : ℕ} {e : ℤ} (h : Canonical m e) {v : ℚ}
    (inside : (Interval.ofFinite m e).Contains v)
    : (2 : ℚ) ^ (-1075 : ℤ) ≤ v ∧ v < 2 ^ (1024 : ℤ) := by
  have power : (0 : ℚ) < 2 ^ e := by positivity
  obtain ⟨⟨low, high⟩, _⟩ := inside.bounds h.pos
  have one : (1 : ℚ) ≤ m := by exact_mod_cast h.pos
  have small : (m : ℚ) + 1 ≤ 2 ^ 53 := by exact_mod_cast h.small
  constructor
  · calc (2 : ℚ) ^ (-1075 : ℤ) = 2 ^ (-1 : ℤ) * 2 ^ (-1074 : ℤ) :=
          zpow_add₀ (by norm_num) (-1) (-1074)
      _ = 1 / 2 * 2 ^ (-1074 : ℤ) := by rw [zpow_neg_one, one_div]
      _ ≤ (m - belowBy m e) * 2 ^ e :=
          mul_le_mul (by linarith [(belowBy_bounds m e).2]) (two_zpow_le_iff.mpr h.least)
            (by positivity) (by linarith [(belowBy_bounds m e).2])
      _ ≤ v := low
  · calc v ≤ (m + 1 / 2) * 2 ^ e := high
      _ < 2 ^ 53 * 2 ^ (971 : ℤ) :=
          mul_lt_mul (by linarith) (two_zpow_le_iff.mpr h.greatest) power (by positivity)
      _ = 2 ^ (1024 : ℤ) := (zpow_add₀ (by norm_num) 53 971).symm

/-- A decimal lies between the powers of ten that its number of digits tells. -/
theorem decimal_bounds {n : ℕ} (pos : 0 < n) (e : ℤ)
    : (10 : ℚ) ^ (digitCount n + e - 1 : ℤ) ≤ n * 10 ^ e
      ∧ n * 10 ^ e < (10 : ℚ) ^ (digitCount n + e : ℤ) := by
  have power : (0 : ℚ) < 10 ^ e := by positivity
  have low : ((10 ^ (digitCount n - 1) : ℕ) : ℚ) ≤ n := by exact_mod_cast pow_digitCount_le pos
  have high : (n : ℚ) < ((10 ^ digitCount n : ℕ) : ℚ) := by exact_mod_cast lt_pow_digitCount n
  have some := digitCount_pos n
  push_cast at low high
  constructor
  · calc (10 : ℚ) ^ (digitCount n + e - 1 : ℤ) = 10 ^ (digitCount n - 1) * 10 ^ e := by
          rw [← zpow_natCast, ← zpow_add₀ (by norm_num)]
          congr 1
          omega
      _ ≤ n * 10 ^ e := mul_le_mul_of_nonneg_right low power.le
  · calc (n : ℚ) * 10 ^ e < 10 ^ digitCount n * 10 ^ e := mul_lt_mul_of_pos_right high power
      _ = (10 : ℚ) ^ (digitCount n + e : ℤ) := by rw [zpow_add₀ (by norm_num), zpow_natCast]

/-- A decimal that is neither too great nor too small to be tried is converted to the float in
whose interval it lies, by cases on whether it is a product or a quotient. -/
theorem Canonical.ofScientific_eq {m : ℕ} {e : ℤ} (h : Canonical m e) {n : ℕ} {power : ℤ}
    (pos : 0 < n) (inside : (Interval.ofFinite m e).Contains (n * 10 ^ power))
    (least : -2048 - (n.log2 : ℤ) ≤ power) (greatest : power ≤ 2048)
    : UnpackedFloat.ofScientific Format.binary64 n power = .finite .positive m e h.pos := by
  rw [UnpackedFloat.ofScientific, dif_neg pos.ne', if_neg (by norm_num; omega),
    if_neg (by norm_num; omega)]
  split
  · next sign =>
    obtain ⟨count, rfl⟩ := Int.eq_ofNat_of_zero_le sign
    have shifted : n <<< 53 = n * 2 ^ 53 := Nat.shiftLeft_eq n 53
    have some : 0 < n * 10 ^ count := Nat.mul_pos pos (Nat.pow_pos (by decide))
    have bits : Format.binary64.mantissaBits = 53 := rfl
    simp only [bits, Int.toNat_natCast, Nat.cast_ofNat]
    refine h.mul_eq _ _ ?_ ?_ _ _
    · have value : ((n <<< 53 : ℕ) : ℚ) * 2 ^ (-53 : ℤ) * ((10 ^ count : ℕ) * 2 ^ (0 : ℤ))
          = n * 10 ^ (count : ℤ) := by
        rw [shifted, zpow_natCast, zpow_zero, zpow_neg, mul_one]
        push_cast
        rw [mul_inv_cancel_right₀ (by positivity)]
      rw [value]
      exact inside
    · calc 2 ^ 52 ≤ 2 ^ 53 := by norm_num
        _ ≤ n * 10 ^ count * 2 ^ 53 := Nat.le_mul_of_pos_left _ some
        _ = (n <<< 53) * 10 ^ count := by rw [shifted, Nat.mul_right_comm]
  · next sign =>
    obtain ⟨count, rfl⟩ : ∃ count : ℕ, power = -count := ⟨power.natAbs, by omega⟩
    refine h.div_eq _ _ ?_ _ _
    have value : ((n : ℚ) * 2 ^ (0 : ℤ)) / ((10 ^ count : ℕ) * 2 ^ (0 : ℤ))
        = n * 10 ^ (-count : ℤ) := by
      rw [zpow_zero, zpow_neg, zpow_natCast, mul_one, mul_one, Nat.cast_pow, div_eq_mul_inv]
      rfl
    rw [neg_neg, Int.toNat_natCast]
    exact value ▸ inside

/-- A short decimal is converted by one operation on floats. -/
theorem Canonical.short_eq {m : ℕ} {e : ℤ} (h : Canonical m e) {n : ℕ} (pos : 0 < n)
    (small : n < 2 ^ 53) (count : Fin 23)
    : ((Interval.ofFinite m e).Contains (n * 10 ^ count.val) →
        n.toUInt64.toFloat * Float.exactlyRepresentablePowersOfTen[count.val]
          = .ofModel (.pack (.finite .positive m e h.pos)))
      ∧ ((Interval.ofFinite m e).Contains (n / 10 ^ count.val) →
        n.toUInt64.toFloat / Float.exactlyRepresentablePowersOfTen[count.val]
          = .ofModel (.pack (.finite .positive m e h.pos))) := by
  have five : 0 < 5 ^ count.val ∧ 5 ^ count.val < 2 ^ 53 := by
    revert count
    decide
  have whole := @canonical_fullMantissa n pos small 0 (by decide) (by decide)
  have tens := @canonical_fullMantissa (5 ^ count.val) five.1 five.2 count.val (by omega) (by omega)
  have first : n.toUInt64.toFloat.toModel.unpack
      = .finite .positive (fullMantissa n) (0 - (52 - n.log2 : ℕ) : ℤ) whole.pos := by
    rw [toModel_toFloat pos small, whole.unpack_pack]
  have second : (Float.exactlyRepresentablePowersOfTen[count.val]).toModel.unpack
      = .finite .positive (fullMantissa (5 ^ count.val))
          (count.val - (52 - (5 ^ count.val).log2 : ℕ) : ℤ) tens.pos := by
    rw [toModel_power, tens.unpack_pack]
  have firstValue : (fullMantissa n : ℚ) * 2 ^ (0 - (52 - n.log2 : ℕ) : ℤ) = n := by
    rw [fullMantissa_mul, zpow_zero, mul_one]
  have secondValue : (fullMantissa (5 ^ count.val) : ℚ)
        * 2 ^ (count.val - (52 - (5 ^ count.val).log2 : ℕ) : ℤ)
      = 10 ^ count.val := by
    rw [fullMantissa_mul, zpow_natCast, Nat.cast_pow, ← mul_pow]
    norm_num
  constructor <;> intro inside
  · change Float.ofModel (.pack (UnpackedFloat.mul Format.binary64 n.toUInt64.toFloat.toModel.unpack
      (Float.exactlyRepresentablePowersOfTen[count.val]).toModel.unpack)) = _
    rw [first, second, h.mul_eq]
    · rfl
    · rw [firstValue, secondValue]
      exact inside
    · have large := whole.normal.resolve_right (by omega)
      exact large.trans (Nat.le_mul_of_pos_right _ tens.pos)
  · change Float.ofModel (.pack (UnpackedFloat.div Format.binary64 n.toUInt64.toFloat.toModel.unpack
      (Float.exactlyRepresentablePowersOfTen[count.val]).toModel.unpack)) = _
    rw [first, second, h.div_eq]
    · rfl
    · rw [firstValue, secondValue]
      exact inside

/-- The size of a decimal that stands for a float keeps to the guards of the conversion. -/
theorem Canonical.scale_bounds {m : ℕ} {e : ℤ} (h : Canonical m e) {n : ℕ} {power : ℤ}
    (pos : 0 < n) (inside : (Interval.ofFinite m e).Contains (n * 10 ^ power))
    : -330 < (digitCount n : ℤ) + power ∧ (digitCount n : ℤ) + power - 1 < 310 := by
  obtain ⟨least, greatest⟩ := h.range inside
  obtain ⟨low, high⟩ := decimal_bounds pos power
  have below : (10 : ℚ) ^ (-330 : ℤ) < 2 ^ (-1075 : ℤ) := by
    have powers : ((2 ^ 1075 : ℕ) : ℚ) < (10 ^ 330 : ℕ) := Nat.cast_lt.mpr (by decide +kernel)
    rw [Nat.cast_pow, Nat.cast_pow] at powers
    rw [zpow_neg, zpow_neg]
    exact inv_strictAnti₀ (by positivity) powers
  have above : (2 : ℚ) ^ (1024 : ℤ) < 10 ^ (310 : ℤ) := by
    have powers : ((2 ^ 1024 : ℕ) : ℚ) < (10 ^ 310 : ℕ) := Nat.cast_lt.mpr (by decide +kernel)
    rw [Nat.cast_pow, Nat.cast_pow] at powers
    exact powers
  exact ⟨(zpow_lt_zpow_iff_right₀ (by norm_num)).mp (below.trans (least.trans_lt high)),
    (zpow_lt_zpow_iff_right₀ (by norm_num)).mp (low.trans_lt (greatest.trans above))⟩

/-- A decimal is converted to the float in whose interval it lies, by cases on whether it is short.
-/
theorem Canonical.nearestFloat_eq {m : ℕ} {e : ℤ} (h : Canonical m e) {n : ℕ} {power : ℤ}
    (pos : 0 < n) (inside : (Interval.ofFinite m e).Contains (n * 10 ^ power))
    : nearestFloat n power = .ofModel (.pack (.finite .positive m e h.pos)) := by
  obtain ⟨least, greatest⟩ := h.scale_bounds pos inside
  have digits := digitCount_pos n
  have log : digitCount n ≤ n.log2 + 1 := by
    have low : 2 ^ (digitCount n - 1) ≤ n :=
      (Nat.pow_le_pow_left (by decide) _).trans (pow_digitCount_le pos)
    have bits := (Nat.le_log2 pos.ne').mpr low
    omega
  have length : (Nat.toDigits 10 n).length = digitCount n := rfl
  simp only [nearestFloat, length]
  rw [if_neg (by omega), if_neg (by omega), Float.ofScientific]
  rcases lt_or_ge power 0 with negative | nonnegative
  · obtain ⟨count, rfl⟩ : ∃ count : ℕ, power = -count := ⟨power.natAbs, by omega⟩
    have amount : (-(count : ℤ)).natAbs = count := by omega
    simp only [decide_eq_true negative, amount, ↓reduceIte]
    split
    · next short =>
      rw [zpow_neg, zpow_natCast, ← div_eq_mul_inv] at inside
      exact (h.short_eq pos short.1 ⟨count, by omega⟩).2 inside
    · rw [Int.negOfNat_eq, Int.ofNat_eq_natCast, ← h.ofScientific_eq pos inside (by omega) (by omega)]
      rfl
  · obtain ⟨count, rfl⟩ := Int.eq_ofNat_of_zero_le nonnegative
    simp only [decide_eq_false nonnegative.not_gt, Int.natAbs_natCast, Bool.false_eq_true,
      ↓reduceIte]
    split
    · next short =>
      rw [zpow_natCast] at inside
      exact (h.short_eq pos short.1 ⟨count, by omega⟩).1 inside
    · rw [Int.ofNat_eq_natCast, ← h.ofScientific_eq pos inside (by omega) (by omega)]
      rfl

end QuizVariants.Decimal
