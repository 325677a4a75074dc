import Mathlib.Algebra.Order.Field.Basic
import Mathlib.Tactic.FieldSimp
import Mathlib.Tactic.Positivity
import QuizVariants.Proofs.Decimal.Interval

/-! Rounding to floats.
An exact number is held as a mantissa with two further bits, which tell how it lies to the nearest
whole numbers. Main statement: rounding gives the float in whose interval the number lies.
-/

namespace QuizVariants.Decimal

open Float.Model Float.Model.UnpackedFloat

-----------------------------------------------------------------------------------------
-- Mantissas with two further bits
-----------------------------------------------------------------------------------------

/-- A number that a mantissa with two further bits stands for: the first bit counts a half, and the
second one tells whether something smaller is left. -/
def Holds (em : ExtendedMantissa) (x : ℚ) : Prop :=
  match em with
  | ⟨m, false, false⟩ => x = m
  | ⟨m, false, true⟩ => m < x ∧ x < m + 1 / 2
  | ⟨m, true, false⟩ => x = m + 1 / 2
  | ⟨m, true, true⟩ => m + 1 / 2 < x ∧ x < m + 1

theorem Holds.floor {em : ExtendedMantissa} {x : ℚ} (h : Holds em x)
    : em.mantissa ≤ x ∧ x < em.mantissa + 1 := by
  obtain ⟨m, round, sticky⟩ := em
  cases round <;> cases sticky <;> simp only [Holds] at h <;> constructor <;> linarith [h]

theorem holds_of_even {m : ℕ} {round sticky : Bool} {x : ℚ} (h : Holds ⟨2 * m, round, sticky⟩ x)
    : Holds ⟨m, false, round || sticky⟩ (x / 2) := by
  cases round <;> cases sticky <;>
    simp only [Holds, Nat.cast_mul, Nat.cast_ofNat, Bool.or_false, Bool.or_true] at h ⊢
  · linarith
  all_goals constructor <;> linarith [h]

theorem holds_of_odd {m : ℕ} {round sticky : Bool} {x : ℚ}
    (h : Holds ⟨2 * m + 1, round, sticky⟩ x)
    : Holds ⟨m, true, round || sticky⟩ (x / 2) := by
  cases round <;> cases sticky <;>
    simp only [Holds, Nat.cast_mul, Nat.cast_add, Nat.cast_one, Nat.cast_ofNat, Bool.or_false,
      Bool.or_true] at h ⊢
  · linarith
  all_goals constructor <;> linarith [h]

/-- Taking off the last bit halves the number, by cases on that bit. -/
theorem Holds.shiftRightOne {em : ExtendedMantissa} {x : ℚ} (h : Holds em x)
    : Holds em.shiftRightOne (x / 2) := by
  obtain ⟨m, round, sticky⟩ := em
  obtain ⟨half, rfl | rfl⟩ := m.even_or_odd'
  · have quotient : 2 * half / 2 = half := by omega
    have bit : (2 * half % 2 != 0) = false := by simp
    simpa only [ExtendedMantissa.shiftRightOne, quotient, bit] using holds_of_even h
  · have quotient : (2 * half + 1) / 2 = half := by omega
    have bit : ((2 * half + 1) % 2 != 0) = true := by
      rw [bne_iff_ne]
      omega
    simpa only [ExtendedMantissa.shiftRightOne, quotient, bit] using holds_of_odd h

theorem Holds.shiftRight {em : ExtendedMantissa} {x : ℚ} (h : Holds em x) (count : ℕ)
    : Holds (em >>> count) (x / 2 ^ count) := by
  induction count with
  | zero => simpa [HShiftRight.hShiftRight, Nat.repeat] using h
  | succ count ih =>
      have step := ih.shiftRightOne
      rw [div_div, ← pow_succ] at step
      exact step

/-- A whole number nearest to a number, the even one of two. -/
structure NearestEven (n : ℕ) (x : ℚ) : Prop where
  near : |x - n| ≤ 1 / 2
  tie : |x - n| = 1 / 2 → n % 2 = 0

theorem NearestEven.unique {n m : ℕ} {x : ℚ} (h : NearestEven n x) (other : NearestEven m x)
    : n = m := by
  obtain ⟨nearN, tieN⟩ := h
  obtain ⟨nearM, tieM⟩ := other
  rw [abs_le] at nearN nearM
  -- Two whole numbers that are both nearest differ by one, so that one of them is odd.
  have apart : (n : ℚ) ≤ m + 1 ∧ (m : ℚ) ≤ n + 1 := by
    constructor <;> linarith
  have below : n ≤ m + 1 := by exact_mod_cast apart.1
  have above : m ≤ n + 1 := by exact_mod_cast apart.2
  rcases Nat.lt_trichotomy n m with less | same | more
  · have next : (m : ℚ) = n + 1 := by exact_mod_cast (by omega : m = n + 1)
    have n_even := tieN (by rw [abs_eq (by norm_num)]; left; linarith)
    have m_even := tieM (by rw [abs_eq (by norm_num)]; right; linarith)
    omega
  · exact same
  · have next : (n : ℚ) = m + 1 := by exact_mod_cast (by omega : n = m + 1)
    have n_even := tieN (by rw [abs_eq (by norm_num)]; right; linarith)
    have m_even := tieM (by rw [abs_eq (by norm_num)]; left; linarith)
    omega

theorem nearestEven_of_lt {n : ℕ} {x : ℚ} (low : (n : ℚ) - 1 / 2 < x) (high : x < n + 1 / 2)
    : NearestEven n x := by
  have less : |x - n| < 1 / 2 := abs_lt.mpr ⟨by linarith, by linarith⟩
  exact ⟨less.le, fun tie => absurd tie less.ne⟩

/-- Rounding gives the nearest whole number, by cases on the two bits. -/
theorem Holds.nearestEven {em : ExtendedMantissa} {x : ℚ} (h : Holds em x)
    : NearestEven em.roundedMantissa x := by
  obtain ⟨m, round, sticky⟩ := em
  cases round <;> cases sticky <;>
    simp only [Holds, ExtendedMantissa.roundedMantissa, ExtendedMantissa.accuracy,
      Accuracy.roundToNearestEven] at h ⊢
  · exact nearestEven_of_lt (by linarith) (by linarith)
  · exact nearestEven_of_lt (by linarith) (by linarith)
  · refine ⟨?_, fun _ => by omega⟩
    rcases Nat.mod_two_eq_zero_or_one m with parity | parity <;>
      rw [parity, abs_le] <;> push_cast <;> constructor <;> linarith
  · exact nearestEven_of_lt (by push_cast; linarith) (by push_cast; linarith)

theorem mantissa_ofMantissaAndAccuracy (m : ℕ) (accuracy : Accuracy)
    : (ExtendedMantissa.ofMantissaAndAccuracy m accuracy).mantissa = m := by
  unfold ExtendedMantissa.ofMantissaAndAccuracy
  split <;> rfl

-----------------------------------------------------------------------------------------
-- Floats in their normal form
-----------------------------------------------------------------------------------------

/-- A mantissa and an exponent as a float that is not zero has them. -/
structure Canonical (m : ℕ) (e : ℤ) : Prop where
  pos : 0 < m
  small : m < 2 ^ 53
  least : -1074 ≤ e
  greatest : e ≤ 971
  normal : 2 ^ 52 ≤ m ∨ e = -1074

/-- A number in the interval of a float is rounded to its mantissa on the scale of the float. -/
theorem Canonical.nearestEven {m : ℕ} {e : ℤ} (h : Canonical m e) {v : ℚ}
    (inside : (Interval.ofFinite m e).Contains v)
    : NearestEven m (v / 2 ^ e) := by
  have power : (0 : ℚ) < 2 ^ e := by positivity
  obtain ⟨⟨low, high⟩, strict⟩ := inside.bounds h.pos
  obtain ⟨_, half⟩ := belowBy_bounds m e
  rw [← le_div_iff₀ power] at low
  rw [← div_le_iff₀ power] at high
  refine ⟨abs_le.mpr ⟨by linarith, by linarith⟩, fun tie => ?_⟩
  rcases Nat.mod_two_eq_zero_or_one m with even | odd
  · exact even
  · obtain ⟨low, high⟩ := strict odd
    rw [← lt_div_iff₀ power] at low
    rw [← div_lt_iff₀ power] at high
    have less : |v / 2 ^ e - m| < 1 / 2 := abs_lt.mpr ⟨by linarith, by linarith⟩
    exact absurd tie less.ne

-----------------------------------------------------------------------------------------
-- Rounding on a scale
-----------------------------------------------------------------------------------------

theorem targetExponent_eq (m : ℕ) (e : ℤ)
    : Format.binary64.targetExponent (totalExponent m e) = max (m.log2 + e - 52) (-1074) := by
  have bits : Format.binary64.mantissaBits = 53 := rfl
  have least : Format.binary64.minExponent = -1074 := rfl
  rw [Format.targetExponent, totalExponent, bits, least]
  omega

/-- A shift to the target exponent holds the same number on a coarser scale. -/
theorem exists_shift {m : ℕ} {e : ℤ} {accuracy : Accuracy} {v : ℚ}
    (holds : Holds (.ofMantissaAndAccuracy m accuracy) (v / 2 ^ e))
    (fine : 52 ≤ m.log2 ∨ e ≤ -1074)
    : ∃ em, shiftToTargetExponent Format.binary64 m e accuracy
          = (em, max (m.log2 + e - 52) (-1074))
        ∧ Holds em (v / 2 ^ (max (m.log2 + e - 52) (-1074) : ℤ)) := by
  obtain ⟨count, shift⟩ : ∃ count : ℕ, max (m.log2 + e - 52) (-1074) = e + count :=
    ⟨(max (m.log2 + e - 52) (-1074) - e).toNat, by omega⟩
  have amount : (e + count - e).toNat = count := by omega
  refine ⟨ExtendedMantissa.ofMantissaAndAccuracy m accuracy >>> count, ?_, ?_⟩
  · simp only [shiftToTargetExponent, shiftToExponent, targetExponent_eq, shift, amount]
  · have shifted := holds.shiftRight count
    rwa [div_div, ← zpow_natCast, ← zpow_add₀ (by norm_num), ← shift] at shifted

theorem shift_small {m : ℕ} {e : ℤ} (small : m < 2 ^ 53) (least : -1074 ≤ e)
    : shiftToTargetExponent Format.binary64 m e .exact = (⟨m, false, false⟩, e) := by
  have log : m.log2 ≤ 52 := by
    rcases Nat.eq_zero_or_pos m with rfl | pos
    · simp
    · have less := (Nat.log2_lt pos.ne').mpr small
      omega
  have amount : (max (m.log2 + e - 52) (-1074) - e).toNat = 0 := by omega
  simp [shiftToTargetExponent, shiftToExponent, targetExponent_eq, amount,
    ExtendedMantissa.ofMantissaAndAccuracy, HShiftRight.hShiftRight, Nat.repeat]

theorem shift_overflow {e : ℤ} (least : -1074 ≤ e)
    : shiftToTargetExponent Format.binary64 (2 ^ 53) e .exact = (⟨2 ^ 52, false, false⟩, e + 1) := by
  have amount : (max (((2 ^ 53 : ℕ).log2 : ℤ) + e - 52) (-1074) - e).toNat = 1 := by
    rw [Nat.log2_two_pow]
    omega
  simp only [shiftToTargetExponent, shiftToExponent, targetExponent_eq, amount]
  rfl

theorem two_zpow_le_iff {a b : ℤ} : (2 : ℚ) ^ a ≤ 2 ^ b ↔ a ≤ b :=
  zpow_le_zpow_iff_right₀ (by norm_num)

theorem two_zpow_lt_iff {a b : ℤ} : (2 : ℚ) ^ a < 2 ^ b ↔ a < b :=
  zpow_lt_zpow_iff_right₀ (by norm_num)

/-- A number lies between the powers of two that its mantissa lies between. -/
theorem Holds.binade {m : ℕ} {e : ℤ} {accuracy : Accuracy} {v : ℚ}
    (holds : Holds (.ofMantissaAndAccuracy m accuracy) (v / 2 ^ e)) (pos : m ≠ 0)
    : (2 : ℚ) ^ (m.log2 + e : ℤ) ≤ v ∧ v < 2 ^ (m.log2 + e + 1 : ℤ) := by
  have power : (0 : ℚ) < 2 ^ e := by positivity
  obtain ⟨low, high⟩ := holds.floor
  rw [mantissa_ofMantissaAndAccuracy] at low high
  have least : ((2 ^ m.log2 : ℕ) : ℚ) ≤ m := by exact_mod_cast Nat.log2_self_le pos
  have greatest : (m : ℚ) + 1 ≤ ((2 ^ (m.log2 + 1) : ℕ) : ℚ) := by
    exact_mod_cast Nat.lt_log2_self (n := m)
  push_cast at least greatest
  rw [le_div_iff₀ power] at low
  rw [div_lt_iff₀ power] at high
  constructor
  · calc (2 : ℚ) ^ (m.log2 + e : ℤ) = 2 ^ m.log2 * 2 ^ e := by
          rw [zpow_add₀ (by norm_num), zpow_natCast]
      _ ≤ m * 2 ^ e := mul_le_mul_of_nonneg_right least power.le
      _ ≤ v := low
  · calc v < (m + 1) * 2 ^ e := high
      _ ≤ 2 ^ (m.log2 + 1) * 2 ^ e := mul_le_mul_of_nonneg_right greatest power.le
      _ = 2 ^ (m.log2 + e + 1 : ℤ) := by
          rw [← zpow_natCast, ← zpow_add₀ (by norm_num)]
          congr 1
          push_cast
          ring

/-- The scale on which a number is rounded is that of the float in whose interval it lies, or the
next finer one where it lies below the least mantissa. -/
theorem Canonical.target_cases {m : ℕ} {e : ℤ} (h : Canonical m e) {v : ℚ}
    (inside : (Interval.ofFinite m e).Contains v) {binade : ℤ} (low : (2 : ℚ) ^ binade ≤ v)
    (high : v < 2 ^ (binade + 1))
    : max (binade - 52) (-1074) = e
      ∨ (m = 2 ^ 52 ∧ -1074 < e ∧ max (binade - 52) (-1074) = e - 1
        ∧ (2 ^ 52 - 1 / 4) * 2 ^ e ≤ v ∧ v < 2 ^ 52 * 2 ^ e) := by
  have power : (0 : ℚ) < 2 ^ e := by positivity
  have scaled (n : ℕ) : (2 : ℚ) ^ n * 2 ^ e = 2 ^ (e + n) := by
    rw [zpow_add₀ (by norm_num), zpow_natCast, mul_comm]
  obtain ⟨⟨least, greatest⟩, _⟩ := inside.bounds h.pos
  rcases le_or_gt ((2 : ℚ) ^ 52 * 2 ^ e) v with normal | below
  · -- The number is on the scale of the float itself.
    have small : (m : ℚ) + 1 ≤ 2 ^ 53 := by exact_mod_cast h.small
    have next : v < 2 ^ 53 * 2 ^ e :=
      greatest.trans_lt (mul_lt_mul_of_pos_right (by linarith) power)
    rw [scaled] at normal next
    have above := two_zpow_lt_iff.mp (normal.trans_lt high)
    have beneath := two_zpow_lt_iff.mp (low.trans_lt next)
    have := h.least
    left
    omega
  · have lower := two_zpow_lt_iff.mp (low.trans_lt (scaled 52 ▸ below))
    rcases eq_or_lt_of_le h.least with bottom | least'
    · left
      omega
    · -- Below the least mantissa the spacing is half as wide.
      right
      have normal : 2 ^ 52 ≤ m := h.normal.resolve_right least'.ne'
      have near : (m : ℚ) - belowBy m e < 2 ^ 52 :=
        lt_of_mul_lt_mul_right (least.trans_lt below) power.le
      have least' : m = 2 ^ 52 := by
        have half := (belowBy_bounds m e).2
        have less : (m : ℚ) < (2 ^ 52 + 1 : ℕ) := by
          push_cast
          linarith
        have := Nat.cast_lt.mp less
        omega
      subst least'
      have quarter : belowBy (2 ^ 52) e = 1 / 4 := if_pos ⟨rfl, by assumption⟩
      rw [quarter] at least
      push_cast at least
      have more : (2 : ℚ) ^ 51 * 2 ^ e < 2 ^ (binade + 1) :=
        (lt_of_lt_of_le (mul_lt_mul_of_pos_right (by norm_num) power) least).trans high
      rw [scaled] at more
      have upper := two_zpow_lt_iff.mp more
      refine ⟨rfl, by assumption, by omega, least, below⟩

/-- A rounded mantissa that fits is the mantissa of the result, and one that is too great by one
bit is halved. -/
theorem roundWithAccuracy_of_shift {sign : Sign} {m : ℕ} {e : ℤ} {accuracy : Accuracy}
    {em : ExtendedMantissa} {scale : ℤ}
    (shift : shiftToTargetExponent Format.binary64 m e accuracy = (em, scale))
    (least : -1074 ≤ scale)
    : (∀ pos : 0 < em.roundedMantissa, em.roundedMantissa < 2 ^ 53 →
        roundWithAccuracy Format.binary64 sign m e accuracy
          = .finite sign em.roundedMantissa scale pos)
      ∧ (em.roundedMantissa = 2 ^ 53 →
        roundWithAccuracy Format.binary64 sign m e accuracy
          = .finite sign (2 ^ 52) (scale + 1) (by decide)) := by
  constructor
  · intro pos small
    rw [roundWithAccuracy, shift]
    dsimp only
    rw [shift_small small least]
    exact dif_neg pos.ne'
  · intro overflow
    rw [roundWithAccuracy, shift]
    dsimp only
    rw [overflow, shift_overflow least]
    rfl

/-- A number without a mantissa of its own lies near the least floats. -/
theorem Canonical.target_of_zero {m : ℕ} {e : ℤ} (h : Canonical m e) {v : ℚ}
    (inside : (Interval.ofFinite m e).Contains v) {exponent : ℤ} (fine : exponent ≤ -1074)
    (small : v < 2 ^ exponent)
    : e = -1074 := by
  have power : (0 : ℚ) < 2 ^ e := by positivity
  obtain ⟨⟨least, _⟩, _⟩ := inside.bounds h.pos
  rcases h.normal with normal | bottom
  · have half := (belowBy_bounds m e).2
    have large : (2 ^ 52 : ℚ) ≤ m := by exact_mod_cast normal
    have scale : (1 : ℚ) * 2 ^ e ≤ v :=
      (mul_le_mul_of_nonneg_right (by linarith) power.le).trans least
    rw [one_mul] at scale
    have below := two_zpow_lt_iff.mp (scale.trans_lt small)
    have := h.least
    omega
  · exact bottom

/-- A number is rounded to the float in whose interval it lies, by cases on the scale on which it
is rounded. -/
theorem Canonical.roundWithAccuracy_eq {m : ℕ} {e : ℤ} (h : Canonical m e) {v : ℚ}
    (inside : (Interval.ofFinite m e).Contains v) {mantissa : ℕ} {exponent : ℤ}
    {accuracy : Accuracy}
    (holds : Holds (.ofMantissaAndAccuracy mantissa accuracy) (v / 2 ^ exponent))
    (fine : 52 ≤ mantissa.log2 ∨ exponent ≤ -1074) (sign : Sign)
    : roundWithAccuracy Format.binary64 sign mantissa exponent accuracy
        = .finite sign m e h.pos := by
  obtain ⟨em, shift, held⟩ := exists_shift holds fine
  obtain ⟨fits, overflows⟩ := @roundWithAccuracy_of_shift sign _ _ _ _ _ shift (by omega)
  have scale : max (mantissa.log2 + exponent - 52) (-1074) = e
      ∨ (m = 2 ^ 52 ∧ -1074 < e ∧ max (mantissa.log2 + exponent - 52) (-1074) = e - 1
        ∧ (2 ^ 52 - 1 / 4) * 2 ^ e ≤ v ∧ v < 2 ^ 52 * 2 ^ e) := by
    rcases eq_or_ne mantissa 0 with rfl | pos
    · have tiny : exponent ≤ -1074 := fine.resolve_left (by simp)
      have small := holds.floor.2
      rw [mantissa_ofMantissaAndAccuracy, Nat.cast_zero, zero_add,
        div_lt_one (by positivity)] at small
      have least := h.target_of_zero inside tiny small
      left
      simp only [Nat.log2_zero, Nat.cast_zero]
      omega
    · obtain ⟨low, high⟩ := holds.binade pos
      exact h.target_cases inside low high
  rcases scale with same | ⟨rfl, least, finer, near, below⟩
  · rw [same] at held fits
    obtain rfl := held.nearestEven.unique (h.nearestEven inside)
    exact fits h.pos h.small
  · rw [finer] at held overflows
    have power : (0 : ℚ) < 2 ^ e := by positivity
    have half : (2 : ℚ) ^ (e - 1) = 2 ^ e / 2 := by
      rw [zpow_sub₀ (by norm_num), zpow_one]
    have doubled : v / 2 ^ (e - 1) = 2 * (v / 2 ^ e) := by
      rw [half]
      field_simp
    rw [← le_div_iff₀ power] at near
    rw [← div_lt_iff₀ power] at below
    have carried : NearestEven (2 ^ 53) (v / 2 ^ (e - 1)) := by
      rw [doubled]
      refine ⟨abs_le.mpr ⟨?_, ?_⟩, fun _ => by decide⟩ <;> push_cast <;> linarith
    have result := overflows (held.nearestEven.unique carried)
    rw [result, sub_add_cancel]

end QuizVariants.Decimal
