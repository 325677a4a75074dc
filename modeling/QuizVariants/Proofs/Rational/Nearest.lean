import Mathlib.Algebra.Group.Int.Even
import QuizVariants.Proofs.Rational.Exactness

/-! The nearest whole number.
A fraction is rounded to the whole number nearest to it, and of two to the even one, so that there
is exactly one choice.
-/

namespace QuizVariants

/-- A whole number nearest to a rational number, the even one of two. -/
structure NearestEven (n : ℤ) (q : ℚ) : Prop where
  near : |q - n| ≤ 1 / 2
  tie : |q - n| = 1 / 2 → Even n

namespace NearestEven

theorem of_lt {n : ℤ} {q : ℚ} (near : |q - n| < 1 / 2) : NearestEven n q :=
  ⟨near.le, fun tie => absurd tie near.ne⟩

/-- A whole number is nearest to itself. -/
theorem intCast (n : ℤ) : NearestEven n n := by
  refine of_lt ?_
  rw [sub_self, abs_zero]
  norm_num

/-- Two whole numbers that are both nearest differ by one at most, and then one of them is odd. -/
theorem unique {n m : ℤ} {q : ℚ} (h : NearestEven n q) (other : NearestEven m q) : n = m := by
  obtain ⟨nearN, tieN⟩ := h
  obtain ⟨nearM, tieM⟩ := other
  rw [abs_le] at nearN nearM
  have below : n ≤ m + 1 := by
    have : (n : ℚ) ≤ m + 1 := by linarith
    exact_mod_cast this
  have above : m ≤ n + 1 := by
    have : (m : ℚ) ≤ n + 1 := by linarith
    exact_mod_cast this
  by_contra apart
  obtain rfl | rfl : n = m + 1 ∨ m = n + 1 := by omega
  · push_cast at nearN tieN
    have evenN : Even (m + 1) := tieN ((abs_eq (by norm_num)).mpr (Or.inr (by linarith)))
    have evenM : Even m := tieM ((abs_eq (by norm_num)).mpr (Or.inl (by linarith)))
    exact Int.even_add_one.mp evenN evenM
  · push_cast at nearM tieM
    have evenN : Even n := tieN ((abs_eq (by norm_num)).mpr (Or.inl (by linarith)))
    have evenM : Even (n + 1) := tieM ((abs_eq (by norm_num)).mpr (Or.inr (by linarith)))
    exact Int.even_add_one.mp evenM evenN

/-- A number halfway between two whole numbers is a half away from either. -/
theorem even_of_halfway {n m : ℤ} {q : ℚ} (h : NearestEven n q) (halfway : q = m + 1 / 2)
    : Even n := by
  have near := abs_le.mp h.near
  have low : n ≤ m + 1 := by
    have : (n : ℚ) ≤ m + 1 := by linarith
    exact_mod_cast this
  have high : m ≤ n := by
    have : (m : ℚ) ≤ n := by linarith
    exact_mod_cast this
  refine h.tie ((abs_eq (by norm_num)).mpr ?_)
  obtain same | next : n = m ∨ n = m + 1 := by omega
  · left
    rw [halfway, same]
    ring
  · right
    rw [halfway, next]
    push_cast
    ring

/-- Less than a half above a whole number, it is the nearest one. -/
theorem add_of_lt_half {n : ℤ} {rest : ℚ} (least : 0 ≤ rest) (less : rest < 1 / 2)
    : NearestEven n (n + rest) := by
  refine of_lt ?_
  rw [add_sub_cancel_left, abs_of_nonneg least]
  exact less

/-- More than a half above a whole number, the next one is nearest. -/
theorem add_of_half_lt {n : ℤ} {rest : ℚ} (more : 1 / 2 < rest) (greatest : rest < 1)
    : NearestEven (n + 1) (n + rest) := by
  refine of_lt (abs_lt.mpr ?_)
  push_cast
  constructor <;> linarith

/-- Halfway between two whole numbers the even one is chosen. -/
theorem add_half (n : ℤ)
    : NearestEven (if n % 2 = 0 then n else n + 1) (n + 1 / 2) := by
  split
  · next even =>
    refine ⟨?_, fun _ => Int.even_iff.mpr even⟩
    rw [add_sub_cancel_left, abs_of_nonneg (by norm_num)]
  · next odd =>
    refine ⟨abs_le.mpr ?_, fun _ => Int.even_add_one.mpr (mt Int.even_iff.mp odd)⟩
    push_cast
    constructor <;> linarith

end NearestEven

namespace Rational

/-- A fraction is its floor and what is left of its numerator. -/
theorem toRat_eq_floor_add (r : Rational)
    : r.toRat = r.floor + (r.num - r.floor * r.den : ℤ) / r.den := by
  rw [toRat, eq_comm, ← eq_sub_iff_add_eq', div_eq_iff r.den_ne_zero, sub_mul,
    div_mul_cancel₀ _ r.den_ne_zero]
  push_cast
  rfl

/-- Rounding compares twice what is left above the floor with the denominator, by cases on how they
compare. -/
theorem nearestEven_round (r : Rational) : NearestEven r.round r.toRat := by
  have den : (0 : ℚ) < r.den := Nat.cast_pos.mpr r.den_pos
  have value := r.toRat_eq_floor_add
  obtain ⟨low, high⟩ := r.floor_bounds
  rw [round]
  generalize left : r.num - r.floor * r.den = rest at value ⊢
  have least : (0 : ℚ) ≤ rest := by exact_mod_cast (by omega : 0 ≤ rest)
  have greatest : (rest : ℚ) < r.den := by
    rw [add_mul, one_mul] at high
    exact_mod_cast (by omega : rest < r.den)
  rw [value]
  split
  · next less =>
    have : (2 * rest : ℚ) < r.den := by exact_mod_cast less
    refine .add_of_lt_half (div_nonneg least den.le) ?_
    rw [div_lt_div_iff₀ den (by norm_num)]
    linarith
  · next notLess =>
    split
    · next more =>
      have : (r.den : ℚ) < 2 * rest := by exact_mod_cast more
      refine .add_of_half_lt ?_ ((div_lt_one den).mpr greatest)
      rw [div_lt_div_iff₀ (by norm_num) den]
      linarith
    · next notMore =>
      have half : (rest / r.den : ℚ) = 1 / 2 := by
        have : (2 * rest : ℚ) = r.den := by
          exact_mod_cast le_antisymm (not_lt.mp notMore) (not_lt.mp notLess)
        rw [div_eq_div_iff den.ne' (by norm_num)]
        linarith
      rw [half]
      exact .add_half r.floor

/-- The whole number nearest to a fraction is the one that it is rounded to. -/
theorem nearestEven_toRat_iff {n : ℤ} {r : Rational} : NearestEven n r.toRat ↔ n = r.round :=
  ⟨fun nearest => nearest.unique (nearestEven_round r), fun same => same ▸ nearestEven_round r⟩

end Rational

/-- The whole number nearest to a fraction of words is a word. -/
theorem NearestEven.fits {n : ℤ} {q : ℚ} (h : NearestEven n q)
    (representable : Rational.Representable q)
    : Fits n := by
  obtain ⟨r, -, rfl⟩ := Rational.exists_ofRat representable
  exact Rational.nearestEven_toRat_iff.mp h ▸ r.fits_round

end QuizVariants
