import Mathlib.Algebra.Order.Field.Power
import Mathlib.Data.Rat.Cast.Order
import Mathlib.Tactic.Linarith
import Mathlib.Tactic.NormNum
import Mathlib.Tactic.Ring
import QuizVariants.Decimal.Shortest

/-! Numbers nearest to a float.
The numbers that are nearer to a float than to its neighbours form an interval, which is half the
spacing wide on either side, or a quarter on the side where the spacing changes.
-/

namespace QuizVariants.Decimal

/-- The number that a quotient stands for. -/
def Quotient.toRat (q : Quotient) : ℚ :=
  q.num / q.den

theorem Quotient.toRat_power (base : ℕ) (exponent : ℤ)
    : (Quotient.power base exponent).toRat = (base : ℚ) ^ exponent := by
  unfold Quotient.power Quotient.toRat
  dsimp only
  split
  · next sign =>
    obtain ⟨n, rfl⟩ := Int.eq_ofNat_of_zero_le sign
    simp
  · next sign =>
    obtain ⟨n, rfl⟩ : ∃ n : ℕ, exponent = -n := ⟨exponent.natAbs, by omega⟩
    simp [zpow_neg]

theorem Quotient.den_power_pos {base : ℕ} (pos : 0 < base) (exponent : ℤ)
    : 0 < (Quotient.power base exponent).den := by
  unfold Quotient.power
  dsimp only
  split
  · exact Nat.one_pos
  · exact Nat.pow_pos pos

theorem Quotient.num_power_pos {base : ℕ} (pos : 0 < base) (exponent : ℤ)
    : 0 < (Quotient.power base exponent).num := by
  unfold Quotient.power
  dsimp only
  split
  · exact Nat.pow_pos pos
  · exact Nat.one_pos

/-- Multiples of quotients are compared by cross multiplication. -/
theorem Quotient.cross_le {a b : ℕ} {p q : Quotient} (hp : 0 < p.den) (hq : 0 < q.den)
    : a * p.num * q.den ≤ b * q.num * p.den ↔ a * p.toRat ≤ b * q.toRat := by
  have first : (0 : ℚ) < p.den := by exact_mod_cast hp
  have second : (0 : ℚ) < q.den := by exact_mod_cast hq
  rw [toRat, toRat, ← mul_div_assoc, ← mul_div_assoc, div_le_div_iff₀ first second]
  exact_mod_cast Iff.rfl

theorem Quotient.cross_lt {a b : ℕ} {p q : Quotient} (hp : 0 < p.den) (hq : 0 < q.den)
    : a * p.num * q.den < b * q.num * p.den ↔ a * p.toRat < b * q.toRat := by
  rw [← not_le, ← not_le, Quotient.cross_le hq hp]

-----------------------------------------------------------------------------------------
-- Intervals
-----------------------------------------------------------------------------------------

/-- The numbers of an interval, its ends being among them where it is closed. -/
def Interval.Contains (i : Interval) (v : ℚ) : Prop :=
  (i.low * i.unit.toRat < v ∧ v < i.high * i.unit.toRat)
    ∨ i.closed = true ∧ i.low * i.unit.toRat ≤ v ∧ v ≤ i.high * i.unit.toRat

theorem Interval.contains_of_holds {i : Interval} {step : Quotient} {count : ℕ}
    (unit : 0 < i.unit.den) (den : 0 < step.den) (h : i.holds step count = true)
    : i.Contains (count * step.toRat) := by
  unfold Interval.holds at h
  dsimp only at h
  split at h
  · next closed =>
    rw [Bool.and_eq_true, decide_eq_true_eq, decide_eq_true_eq, Quotient.cross_le unit den,
      Quotient.cross_le den unit] at h
    exact Or.inr ⟨closed, h⟩
  · rw [Bool.and_eq_true, decide_eq_true_eq, decide_eq_true_eq, Quotient.cross_lt unit den,
      Quotient.cross_lt den unit] at h
    exact Or.inl h

/-- What lies between the ends is held by the interval, whether it is closed or not. -/
theorem Interval.holds_of_lt {i : Interval} {step : Quotient} {count : ℕ}
    (unit : 0 < i.unit.den) (den : 0 < step.den)
    (low : i.low * i.unit.toRat < count * step.toRat)
    (high : count * step.toRat < i.high * i.unit.toRat)
    : i.holds step count = true := by
  rw [← Quotient.cross_lt unit den] at low
  rw [← Quotient.cross_lt den unit] at high
  unfold Interval.holds
  dsimp only
  split
  · rw [Bool.and_eq_true, decide_eq_true_eq, decide_eq_true_eq]
    exact ⟨low.le, high.le⟩
  · rw [Bool.and_eq_true, decide_eq_true_eq, decide_eq_true_eq]
    exact ⟨low, high⟩

/-- How far the numbers nearest to a float go below it, in units of its spacing. -/
def belowBy (mantissa : ℕ) (exponent : ℤ) : ℚ :=
  if mantissa = impliedBit ∧ leastExponent < exponent then 1 / 4 else 1 / 2

theorem belowBy_bounds (mantissa : ℕ) (exponent : ℤ)
    : 0 < belowBy mantissa exponent ∧ belowBy mantissa exponent ≤ 1 / 2 := by
  unfold belowBy
  split <;> norm_num

/-- The ends of the interval of a float are given in quarters of its spacing. -/
theorem Interval.ends_ofFinite {m : ℕ} (e : ℤ) (pos : 0 < m)
    : (Interval.ofFinite m e).low * (Interval.ofFinite m e).unit.toRat = (m - belowBy m e) * 2 ^ e
      ∧ (Interval.ofFinite m e).high * (Interval.ofFinite m e).unit.toRat
        = (m + 1 / 2) * 2 ^ e := by
  have unit : (2 : ℚ) ^ (e - 2) = 2 ^ e / 4 := by
    rw [zpow_sub₀ (by norm_num)]
    norm_num
  have low : ((Interval.ofFinite m e).low : ℚ) = 4 * (m - belowBy m e) := by
    unfold Interval.ofFinite belowBy
    dsimp only
    rw [Nat.cast_sub (by split <;> omega)]
    split <;> push_cast <;> ring
  have high : ((Interval.ofFinite m e).high : ℚ) = 4 * (m + 1 / 2) := by
    simp only [Interval.ofFinite]
    push_cast
    ring
  rw [low, high, Interval.ofFinite, Quotient.toRat_power, Nat.cast_ofNat, unit]
  constructor <;> ring

/-- A number of the interval is at most half a spacing away, and nearer unless the mantissa is
even. -/
theorem Interval.Contains.bounds {m : ℕ} {e : ℤ} {v : ℚ} (h : (Interval.ofFinite m e).Contains v)
    (pos : 0 < m)
    : ((m - belowBy m e) * 2 ^ e ≤ v ∧ v ≤ (m + 1 / 2) * 2 ^ e)
      ∧ (m % 2 = 1 → (m - belowBy m e) * 2 ^ e < v ∧ v < (m + 1 / 2) * 2 ^ e) := by
  obtain ⟨low, high⟩ := Interval.ends_ofFinite e pos
  rw [Interval.Contains, low, high] at h
  rcases h with ⟨less, more⟩ | ⟨closed, inside⟩
  · exact ⟨⟨less.le, more.le⟩, fun _ => ⟨less, more⟩⟩
  · refine ⟨inside, fun odd => ?_⟩
    have even : m % 2 = 0 := of_decide_eq_true closed
    omega

/-- A float lies in its own interval. -/
theorem Interval.contains_self {m : ℕ} (e : ℤ) (pos : 0 < m)
    : (Interval.ofFinite m e).Contains (m * 2 ^ e) := by
  obtain ⟨low, high⟩ := Interval.ends_ofFinite e pos
  have power : (0 : ℚ) < 2 ^ e := by positivity
  rw [Interval.Contains, low, high]
  refine Or.inl ⟨?_, ?_⟩
  · exact mul_lt_mul_of_pos_right (by linarith [(belowBy_bounds m e).1]) power
  · exact mul_lt_mul_of_pos_right (by linarith) power

end QuizVariants.Decimal
