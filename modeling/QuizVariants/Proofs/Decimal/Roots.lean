import Mathlib.Analysis.Real.Sqrt
import QuizVariants.Proofs.Decimal.Conversion
import QuizVariants.Proofs.Decimal.Shortest

/-! Roots of floats.
A root is rounded from the greatest whole number below it on a scale of fifty-three bits. Main
statement: the root of the float nearest to a natural number, rounded to a whole number, is less
than one away from the root of the natural number, as long as that is below two to the sixty-third.
-/

namespace QuizVariants.Decimal

open Float.Model Float.Model.UnpackedFloat

-----------------------------------------------------------------------------------------
-- Floats nearest to a number
-----------------------------------------------------------------------------------------

/-- There is a whole number nearest to a number, by cases on the half. -/
theorem exists_nearestEven {x : ℚ} (nonnegative : 0 ≤ x) : ∃ n, NearestEven n x := by
  have low := Nat.floor_le nonnegative
  have high := Nat.lt_floor_add_one x
  obtain ⟨n, floor⟩ : ∃ n : ℕ, n = ⌊x⌋₊ := ⟨_, rfl⟩
  rw [← floor] at low high
  rcases lt_trichotomy x (n + 1 / 2) with less | half | more
  · exact ⟨n, nearestEven_of_lt (by linarith) less⟩
  · exact ⟨_, @Holds.nearestEven ⟨n, true, false⟩ x half⟩
  · refine ⟨n + 1, nearestEven_of_lt ?_ ?_⟩ <;> push_cast <;> linarith

/-- The numbers that are rounded to a mantissa lie in the interval of its float. -/
theorem contains_of_nearestEven {m : ℕ} {e : ℤ} {x : ℚ} (pos : 0 < m) (h : NearestEven m x)
    (above : m = impliedBit → (m : ℚ) ≤ x)
    : (Interval.ofFinite m e).Contains (x * 2 ^ e) := by
  have power : (0 : ℚ) < 2 ^ e := by positivity
  obtain ⟨low, high⟩ := Interval.ends_ofFinite e pos
  obtain ⟨near, tie⟩ := h
  rw [Interval.Contains, low, high, mul_lt_mul_iff_left₀ power, mul_lt_mul_iff_left₀ power,
    mul_le_mul_iff_left₀ power, mul_le_mul_iff_left₀ power]
  have below : (m : ℚ) - belowBy m e ≤ x ∧ (|x - m| ≠ 1 / 2 → (m : ℚ) - belowBy m e < x) := by
    obtain ⟨some, _⟩ := belowBy_bounds m e
    by_cases least : m = impliedBit
    · have := above least
      exact ⟨by linarith, fun _ => by linarith⟩
    · have half : belowBy m e = 1 / 2 := if_neg (fun narrow => least narrow.1)
      rw [half]
      refine ⟨by linarith [(abs_le.mp near).1], fun other => ?_⟩
      linarith [(abs_lt.mp (lt_of_le_of_ne near other)).1]
  by_cases half : |x - m| = 1 / 2
  · exact Or.inr ⟨decide_eq_true (tie half), below.1, by linarith [(abs_le.mp near).2]⟩
  · exact Or.inl ⟨below.2 half, by linarith [(abs_lt.mp (lt_of_le_of_ne near half)).2]⟩

/-- A number that is neither small nor great lies in the interval of a float with all bits, by
cases on whether its mantissa is rounded up to one bit more. -/
theorem exists_canonical {v : ℚ} (least : 1 / 2 ≤ v) (greatest : v < 2 ^ (64 : ℤ))
    : ∃ m e, Canonical m e ∧ 2 ^ 52 ≤ m ∧ (Interval.ofFinite m e).Contains v := by
  obtain ⟨binade, low, high⟩ :=
    exists_mem_Ico_zpow (lt_of_lt_of_le one_half_pos least) (one_lt_two : (1 : ℚ) < 2)
  have first : -2 < binade := by
    have half : (2 : ℚ) ^ (-1 : ℤ) ≤ v := by rwa [zpow_neg_one, ← one_div]
    have := two_zpow_lt_iff.mp (half.trans_lt high)
    omega
  have last : binade < 64 := two_zpow_lt_iff.mp (low.trans_lt greatest)
  obtain ⟨e, scale⟩ : ∃ e : ℤ, e = binade - 52 := ⟨_, rfl⟩
  have power : (0 : ℚ) < 2 ^ e := by positivity
  obtain ⟨x, value⟩ : ∃ x : ℚ, v = x * 2 ^ e := ⟨v / 2 ^ e, (div_mul_cancel₀ v power.ne').symm⟩
  have bottom : (2 : ℚ) ^ 52 ≤ x := by
    rw [show binade = (52 : ℕ) + e by omega, zpow_add₀ (by norm_num), value, zpow_natCast] at low
    exact le_of_mul_le_mul_right low power
  have top : x < 2 ^ 53 := by
    rw [show binade + 1 = (53 : ℕ) + e by omega, zpow_add₀ (by norm_num), value, zpow_natCast]
      at high
    exact lt_of_mul_lt_mul_right high power.le
  obtain ⟨m, nearest⟩ := exists_nearestEven ((by positivity : (0 : ℚ) ≤ 2 ^ 52).trans bottom)
  have near := abs_le.mp nearest.near
  have full : 2 ^ 52 ≤ m := by
    have less : ((2 ^ 52 : ℕ) : ℚ) < (m + 1 : ℕ) := by
      push_cast
      linarith
    have := Nat.cast_lt.mp less
    omega
  rcases lt_or_ge m (2 ^ 53) with small | large
  · refine ⟨m, e, ⟨by omega, small, by omega, by omega, Or.inl full⟩, full, ?_⟩
    rw [value]
    refine contains_of_nearestEven (by omega) nearest (fun isLeast => ?_)
    rw [isLeast]
    exact_mod_cast bottom
  · -- The least mantissa on the next scale, whose interval is narrow below it.
    refine ⟨2 ^ 52, e + 1, ⟨by decide, by decide, by omega, by omega, Or.inl le_rfl⟩, le_rfl, ?_⟩
    have carry : ((2 ^ 53 : ℕ) : ℚ) ≤ m := by exact_mod_cast large
    push_cast at carry
    have narrow : belowBy (2 ^ 52) (e + 1) = 1 / 4 :=
      if_pos ⟨rfl, show (-1074 : ℤ) < e + 1 by omega⟩
    obtain ⟨lowEnd, highEnd⟩ := @Interval.ends_ofFinite (2 ^ 52) (e + 1) (by decide)
    rw [Interval.Contains, lowEnd, highEnd, narrow, zpow_add_one₀ (by norm_num), value]
    right
    refine ⟨rfl, ?_, ?_⟩ <;> push_cast
    · nlinarith [mul_le_mul_of_nonneg_right (by linarith : (2 ^ 53 - 1 / 2 : ℚ) ≤ x) power.le]
    · nlinarith [mul_le_mul_of_nonneg_right top.le power.le]

/-- A float with all bits is near to the numbers of its interval. -/
theorem Canonical.near {m : ℕ} {e : ℤ} (h : Canonical m e) (full : 2 ^ 52 ≤ m) {v : ℚ}
    (inside : (Interval.ofFinite m e).Contains v)
    : |m * 2 ^ e - v| * 2 ^ 52 ≤ v := by
  have power : (0 : ℚ) < 2 ^ e := by positivity
  obtain ⟨⟨low, high⟩, _⟩ := inside.bounds h.pos
  have half := (belowBy_bounds m e).2
  have bits : (2 : ℚ) ^ 52 ≤ m := by exact_mod_cast full
  have below : (m - 1 / 2 : ℚ) * 2 ^ e ≤ v :=
    (mul_le_mul_of_nonneg_right (by linarith) power.le).trans low
  have scale : (2 ^ 52 - 1 / 2 : ℚ) * 2 ^ e ≤ v :=
    (mul_le_mul_of_nonneg_right (by linarith) power.le).trans below
  have distance : |m * 2 ^ e - v| ≤ 1 / 2 * 2 ^ e := abs_le.mpr ⟨by linarith, by linarith⟩
  calc |m * 2 ^ e - v| * 2 ^ 52 ≤ 1 / 2 * 2 ^ e * 2 ^ 52 :=
        mul_le_mul_of_nonneg_right distance (by positivity)
    _ ≤ (2 ^ 52 - 1 / 2) * 2 ^ e := by linarith
    _ ≤ v := scale

-----------------------------------------------------------------------------------------
-- Roots on a scale
-----------------------------------------------------------------------------------------

/-- How a root lies to the greatest whole number below it. -/
def rootAccuracy (n : ℕ) : Accuracy :=
  if n - n.sqrt * n.sqrt = 0 then .exact
  else .inexact (if n - n.sqrt * n.sqrt ≤ n.sqrt then .lt else .gt)

/-- There is a number that is rounded like a root, by cases on how the root lies. -/
theorem exists_holds_root (n : ℕ)
    : ∃ x : ℚ, Holds (.ofMantissaAndAccuracy n.sqrt (rootAccuracy n)) x := by
  rw [rootAccuracy]
  split
  · exact ⟨n.sqrt, rfl⟩
  · split
    · refine ⟨n.sqrt + 1 / 4, ?_, ?_⟩ <;> linarith
    · refine ⟨n.sqrt + 3 / 4, ?_, ?_⟩ <;> linarith

/-- The radicand of a float with all bits that is neither small nor great, on the scale on which its
root has all bits, too. -/
theorem Canonical.exists_radicand {m : ℕ} {e : ℤ} (h : Canonical m e) (full : 2 ^ 52 ≤ m)
    (least : 1 / 2 ≤ (m : ℚ) * 2 ^ e) (greatest : (m : ℚ) * 2 ^ e < 2 ^ (64 : ℤ))
    : ∃ (n : ℕ) (scale : ℤ),
        sqrtCore Format.binary64 m e = (n.sqrt, scale, rootAccuracy n)
          ∧ (m : ℚ) * 2 ^ e = n * (2 ^ scale * 2 ^ scale)
          ∧ (2 ^ 52 ≤ n.sqrt ∧ n.sqrt < 2 ^ 53)
          ∧ (-53 ≤ scale ∧ scale ≤ -21) := by
  have small : (m : ℚ) < 2 ^ 53 := by exact_mod_cast h.small
  have bits : (2 : ℚ) ^ 52 ≤ m := by exact_mod_cast full
  have power : (0 : ℚ) < 2 ^ e := by positivity
  have lowest : -54 < e := by
    have above := least.trans_lt (mul_lt_mul_of_pos_right small power)
    rw [← zpow_natCast, ← zpow_add₀ (by norm_num), one_div, ← zpow_neg_one] at above
    have := two_zpow_lt_iff.mp above
    omega
  have highest : e < 12 := by
    have below := (mul_le_mul_of_nonneg_right bits power.le).trans_lt greatest
    rw [← zpow_natCast, ← zpow_add₀ (by norm_num)] at below
    have := two_zpow_lt_iff.mp below
    omega
  have log : m.log2 = 52 := by
    have := h.log2.mpr full
    omega
  obtain ⟨scale, isScale⟩ : ∃ scale : ℤ, scale = (e - 52) / 2 := ⟨_, rfl⟩
  obtain ⟨shift, isShift⟩ : ∃ shift : ℕ, e = 2 * scale + shift := ⟨(e - 2 * scale).toNat, by omega⟩
  refine ⟨m * 2 ^ shift, scale, ?_, ?_, ⟨?_, ?_⟩, by omega, by omega⟩
  · have target : min (e.ediv 2) (Format.binary64.targetExponent ((totalExponent m e + 1).ediv 2))
        = scale := by
      have half (i : ℤ) : i.ediv 2 = i / 2 := rfl
      simp only [half, Format.targetExponent, totalExponent, Format.mantissaBits,
        Format.minExponent, log]
      norm_num
      omega
    have amount : (e - 2 * scale).toNat = shift := by omega
    simp only [sqrtCore, target, amount, Nat.shiftLeft_eq]
    rfl
  · rw [isShift, zpow_add₀ (by norm_num), two_mul, zpow_add₀ (by norm_num), zpow_natCast]
    push_cast
    ring
  · rw [Nat.le_sqrt]
    exact Nat.mul_le_mul full (Nat.pow_le_pow_right (by decide) (by omega))
  · rw [Nat.sqrt_lt]
    exact Nat.mul_lt_mul_of_lt_of_le h.small (Nat.pow_le_pow_right (by decide) (by omega))
      (by decide)

/-- The root of a float with all bits that is neither small nor great is near to the greatest number
below it on the scale of the root. -/
theorem Canonical.sqrt_near {m : ℕ} {e : ℤ} (h : Canonical m e) (full : 2 ^ 52 ≤ m)
    (least : 1 / 2 ≤ (m : ℚ) * 2 ^ e) (greatest : (m : ℚ) * 2 ^ e < 2 ^ (64 : ℤ))
    : ∃ (k : ℕ) (t : ℤ) (root : ℚ) (canonical : Canonical k t),
        UnpackedFloat.sqrt Format.binary64 (.finite .positive m e h.pos)
            = .finite .positive k t canonical.pos
          ∧ 1 / 2 ≤ root
          ∧ root * root ≤ m * 2 ^ e
          ∧ (m : ℚ) * 2 ^ e < (root + 2 ^ (-21 : ℤ)) * (root + 2 ^ (-21 : ℤ))
          ∧ |k * 2 ^ t - root| ≤ 2 ^ (-19 : ℤ) := by
  obtain ⟨n, scale, core, value, ⟨low, high⟩, coarse, fine⟩ :=
    h.exists_radicand full least greatest
  obtain ⟨unit, isUnit⟩ : ∃ unit : ℚ, unit = 2 ^ scale := ⟨_, rfl⟩
  have positive : 0 < unit := isUnit ▸ by positivity
  replace fine : unit ≤ 2 ^ (-21 : ℤ) := isUnit ▸ two_zpow_le_iff.mpr fine
  replace coarse : 2 ^ (-53 : ℤ) ≤ unit := isUnit ▸ two_zpow_le_iff.mpr coarse
  rw [← isUnit] at value
  have rootLow : (2 : ℚ) ^ 52 ≤ n.sqrt := by exact_mod_cast low
  have rootHigh : (n.sqrt : ℚ) + 1 ≤ 2 ^ 53 := by exact_mod_cast high
  have squareLow : (n.sqrt : ℚ) * n.sqrt ≤ n := by exact_mod_cast n.sqrt_le
  have squareHigh : (n : ℚ) < (n.sqrt + 1) * (n.sqrt + 1) := by exact_mod_cast n.lt_succ_sqrt
  -- A number that stands for the root, which need not be a fraction.
  obtain ⟨x, holds⟩ := exists_holds_root n
  obtain ⟨xLow, xHigh⟩ := holds.floor
  rw [mantissa_ofMantissaAndAccuracy] at xLow xHigh
  have some : 1 / 2 ≤ n.sqrt * unit := by
    calc (1 / 2 : ℚ) = 2 ^ 52 * 2 ^ (-53 : ℤ) := by norm_num
      _ ≤ n.sqrt * unit := mul_le_mul rootLow coarse (by positivity) (by positivity)
  have below : n.sqrt * unit ≤ x * unit := mul_le_mul_of_nonneg_right xLow positive.le
  have above : x * unit ≤ n.sqrt * unit + unit := by
    have := mul_le_mul_of_nonneg_right xHigh.le positive.le
    linarith
  have bounded : x * unit < 2 ^ (32 : ℤ) := by
    calc x * unit < 2 ^ 53 * unit := mul_lt_mul_of_pos_right (xHigh.trans_le rootHigh) positive
      _ ≤ 2 ^ 53 * 2 ^ (-21 : ℤ) := mul_le_mul_of_nonneg_left fine (by positivity)
      _ = 2 ^ (32 : ℤ) := by norm_num
  obtain ⟨k, t, canonical, all, inside⟩ :=
    exists_canonical (some.trans below) (bounded.trans (by norm_num))
  refine ⟨k, t, n.sqrt * unit, canonical, ?_, some, ?_, ?_, ?_⟩
  · change roundWithAccuracy Format.binary64 .positive (sqrtCore Format.binary64 m e).1
      (sqrtCore Format.binary64 m e).2.1 (sqrtCore Format.binary64 m e).2.2 = _
    rw [core]
    refine canonical.roundWithAccuracy_eq inside ?_ (Or.inl ?_) _
    · rw [isUnit, mul_div_cancel_right₀ _ (by positivity)]
      exact holds
    · exact (Nat.le_log2 (by omega)).mpr low
  · calc n.sqrt * unit * (n.sqrt * unit) = n.sqrt * n.sqrt * (unit * unit) := by ring
      _ ≤ n * (unit * unit) := mul_le_mul_of_nonneg_right squareLow (by positivity)
      _ = m * 2 ^ e := value.symm
  · calc (m : ℚ) * 2 ^ e = n * (unit * unit) := value
      _ < (n.sqrt + 1) * (n.sqrt + 1) * (unit * unit) :=
          mul_lt_mul_of_pos_right squareHigh (by positivity)
      _ = (n.sqrt * unit + unit) * (n.sqrt * unit + unit) := by ring
      _ ≤ _ := mul_le_mul (by linarith) (by linarith) (by positivity) (by positivity)
  · have close : |(k : ℚ) * 2 ^ t - x * unit| ≤ 2 ^ (-20 : ℤ) := by
      have : |(k : ℚ) * 2 ^ t - x * unit| * 2 ^ 52 ≤ 2 ^ (-20 : ℤ) * 2 ^ 52 :=
        (canonical.near all inside).trans (bounded.le.trans (by norm_num))
      exact le_of_mul_le_mul_right this (by positivity)
    rw [abs_le] at close ⊢
    norm_num at close fine ⊢
    constructor <;> linarith

-----------------------------------------------------------------------------------------
-- Roots of natural numbers
-----------------------------------------------------------------------------------------

/-- The float nearest to a positive natural number. -/
theorem exists_ofNat {n : ℕ} (pos : 0 < n) (small : n < 2 ^ 63)
    : ∃ m e, ∃ canonical : Canonical m e,
        2 ^ 52 ≤ m
          ∧ (Float.ofNat n).toModel.unpack = .finite .positive m e canonical.pos
          ∧ |m * 2 ^ e - (n : ℚ)| * 2 ^ 52 ≤ n := by
  have least : (1 : ℚ) ≤ n := by exact_mod_cast pos
  have greatest : (n : ℚ) < 2 ^ 63 := by exact_mod_cast small
  obtain ⟨m, e, canonical, full, inside⟩ :=
    exists_canonical (by linarith) (greatest.trans (by norm_num))
  refine ⟨m, e, canonical, full, ?_, canonical.near full inside⟩
  have digits : digitCount n ≤ 64 := by
    have low : 2 ^ (digitCount n - 1) < 2 ^ 63 :=
      ((Nat.pow_le_pow_left (by decide) _).trans (pow_digitCount_le pos)).trans_lt small
    have := (Nat.pow_lt_pow_iff_right (by decide)).mp low
    omega
  have length : (Nat.toDigits 10 n).length = digitCount n := rfl
  have float : Float.ofNat n = nearestFloat n 0 := by
    rw [nearestFloat, length, if_neg (by omega), if_neg (by omega)]
    rfl
  rw [float, canonical.nearestFloat_eq pos (by simpa using inside)]
  exact canonical.unpack_pack .positive

/-- Rounding a finite float takes a whole number near to it. -/
theorem nearest_magnitude (tie : Tie) (k : ℕ) (t : ℤ)
    : |((magnitude k t).nearest tie : ℚ) - k * 2 ^ t| ≤ 1 / 2 := by
  rw [← toRat_magnitude]
  exact Quotient.nearest_near tie (Quotient.den_power_pos (by decide) t)

/-- A root of a number near to a square is near to the root of the square. -/
theorem root_near {value root r : ℝ} (near : |value - r * r| ≤ r * r / 2 ^ 52)
    (positive : 0 < root) (low : root * root ≤ value)
    (high : value < (root + 2 ^ (-21 : ℤ)) * (root + 2 ^ (-21 : ℤ))) (one : 1 ≤ r)
    (small : r < 2 ^ 32)
    : |root - r| ≤ 1 / 4 := by
  have fine : (2 : ℝ) ^ (-21 : ℤ) ≤ 1 / 8 := by norm_num
  have least : (0 : ℝ) < 2 ^ (-21 : ℤ) := by positivity
  have close : |value - r * r| ≤ r / 8 := by
    refine near.trans ?_
    have : r * r ≤ r * 2 ^ 32 := mul_le_mul_of_nonneg_left small.le (by linarith)
    linarith
  rw [abs_le] at close ⊢
  constructor
  · by_contra less
    have below : root + 2 ^ (-21 : ℤ) < r - 1 / 8 := by linarith
    have square := high.trans (mul_self_lt_mul_self (by linarith) below)
    linarith
  · by_contra more
    have above : r + 1 / 4 < root := by linarith
    have square := mul_self_lt_mul_self (by linarith) above
    linarith

/-- The root of the float nearest to a natural number, rounded to a whole number, is less than one
away from the root of the natural number. -/
theorem nearest_sqrt {n : ℕ} (small : n < 2 ^ 63)
    : ∃ k t,
        Denotation.ofFloat (Float.ofNat n).sqrt = .finite false k t
          ∧ |((magnitude k t).nearest .up : ℝ) - √n| < 1 := by
  rcases Nat.eq_zero_or_pos n with rfl | pos
  · have zero : (magnitude 0 leastExponent).nearest .up = 0 := by decide +kernel
    refine ⟨0, leastExponent, by decide +kernel, ?_⟩
    simp [zero]
  obtain ⟨m, e, float, full, unpacked, near⟩ := exists_ofNat pos small
  obtain ⟨value, isValue⟩ : ∃ value : ℚ, value = m * 2 ^ e := ⟨_, rfl⟩
  have least : (1 : ℚ) ≤ n := by exact_mod_cast pos
  have greatest : (n : ℚ) < 2 ^ 63 := by exact_mod_cast small
  have power : (2 : ℚ) ^ (64 : ℤ) = 2 * 2 ^ 63 := by norm_num
  have rounded : |value - n| ≤ n / 2 ^ 52 := by
    rw [le_div_iff₀ (by positivity), isValue]
    exact near
  have bounds := abs_le.mp rounded
  obtain ⟨k, t, root, canonical, rooted, some, low, high, close⟩ :=
    float.sqrt_near full (by rw [← isValue]; linarith) (by rw [← isValue]; linarith)
  rw [← isValue] at low high
  have denotes : Denotation.ofFloat (Float.ofNat n).sqrt = .finite false k t := by
    rw [ Denotation.ofFloat_eq]
    change Denotation.ofParts (Float.Model.pack (UnpackedFloat.sqrt Format.binary64
      (Float.ofNat n).toModel.unpack)).unpack = _
    rw [unpacked, rooted, canonical.unpack_pack]
    rfl
  refine ⟨k, t, denotes, ?_⟩
  have guess : |((magnitude k t).nearest .up : ℝ) - root| ≤ 5 / 8 := by
    have whole := nearest_magnitude .up k t
    have path := abs_sub_le ((magnitude k t).nearest .up : ℚ) (k * 2 ^ t) root
    have fine : |(k : ℚ) * 2 ^ t - root| ≤ 1 / 8 := close.trans (by norm_num)
    have within : |((magnitude k t).nearest .up : ℚ) - root| ≤ 5 / 8 := by linarith
    have := (Rat.cast_le (K := ℝ)).mpr within
    push_cast at this
    exact this
  have far : |(root : ℝ) - √n| ≤ 1 / 4 := by
    replace rounded := (Rat.cast_le (K := ℝ)).mpr rounded
    replace low := (Rat.cast_le (K := ℝ)).mpr low
    replace high := (Rat.cast_lt (K := ℝ)).mpr high
    push_cast at rounded low high
    have square : √n * √n = n := Real.mul_self_sqrt n.cast_nonneg
    rw [← square] at rounded
    refine root_near rounded ?_ low high ?_ ?_
    · exact_mod_cast (by linarith : (0 : ℚ) < root)
    · rw [Real.one_le_sqrt]
      exact_mod_cast least
    · rw [Real.sqrt_lt' (by positivity)]
      have : (n : ℝ) < 2 ^ 63 := by exact_mod_cast greatest
      linarith
  calc |((magnitude k t).nearest .up : ℝ) - √n|
      ≤ |((magnitude k t).nearest .up : ℝ) - root| + |(root : ℝ) - √n| := abs_sub_le _ _ _
    _ < 1 := by linarith

end QuizVariants.Decimal
