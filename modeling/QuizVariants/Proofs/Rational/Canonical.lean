import QuizVariants.Proofs.Rational.Exactness
import QuizVariants.Rational.Root

/-! Canonical fractions.
Fractions are in lowest terms, whatever operations they come from: opposites, absolute values and
roots keep that form, and all other results are reduced. An operation gives its exact result, a
division by zero where there is none, and an overflow where the parts of the exact result do not
fit in a word.
-/

namespace QuizVariants.Rational

-----------------------------------------------------------------------------------------
-- Fractions that are built without being reduced
-----------------------------------------------------------------------------------------

/-- A quotient of coprime parts is the fraction of these parts. -/
theorem parts_ofRatio {num den : Int} {r : Rational} (positive : 0 < den)
    (coprime : num.natAbs.Coprime den.natAbs) (h : ofRatio num den = .ok r)
    : r.num = num ∧ (r.den : Int) = den := by
  rw [ofRatio_eq_ofRat positive.ne' rfl, ofRat_eq_ok_iff] at h
  rw [← num_toRat, ← den_toRat, h]
  exact ⟨Rat.num_div_eq_of_coprime positive coprime, Rat.den_div_eq_of_coprime positive coprime⟩

/-- The opposite has the opposite numerator and the same denominator. -/
theorem parts_neg {a r : Rational} (h : a.neg = .ok r)
    : r.num = -a.num ∧ r.den = a.den := by
  rw [← num_toRat, ← den_toRat, toRat_neg h, Rat.num_neg_eq_neg_num, Rat.neg_den, num_toRat,
    den_toRat]
  exact ⟨rfl, rfl⟩

/-- The absolute value has the absolute numerator and the same denominator. -/
theorem parts_abs {a r : Rational} (h : a.abs = .ok r)
    : r.num = |a.num| ∧ r.den = a.den := by
  rw [abs_eq, ofRat_eq_ok_iff] at h
  rw [← num_toRat, ← den_toRat, h, Rat.num_abs_eq_abs_num, Rat.den_abs_eq_den, num_toRat,
    den_toRat]
  exact ⟨rfl, rfl⟩

/-- Roots of the parts of a fraction are coprime like the parts, so that there is nothing to
cancel. -/
theorem coprime_of_squares {a : Rational} {top bottom : Nat} (num : top * top = a.num.natAbs)
    (den : bottom * bottom = a.den)
    : top.Coprime bottom := by
  have reduced := a.reduced
  rw [← num, ← den] at reduced
  exact reduced.coprime_mul_left.coprime_mul_left_right

/-- The parts of a root are the roots of the parts. -/
theorem parts_sqrt? {a r : Rational} (h : a.sqrt? = some r)
    : 0 ≤ r.num ∧ r.num * r.num = a.num ∧ r.den * r.den = a.den := by
  unfold sqrt? at h
  split at h
  · exact nomatch h
  next nonnegative =>
  simp only [Option.bind_eq_bind, Option.bind_eq_some_iff] at h
  obtain ⟨top, topRoot, bottom, bottomRoot, fraction⟩ := h
  have topSquare := mul_self_of_exactRoot? topRoot
  have bottomSquare := mul_self_of_exactRoot? bottomRoot
  have positive : 0 < bottom :=
    Nat.pos_of_ne_zero (fun zero => a.den_pos.ne' (by rw [← bottomSquare, zero]))
  have coprime : (top : Int).natAbs.Coprime (bottom : Int).natAbs :=
    coprime_of_squares topSquare bottomSquare
  cases built : ofRatio top bottom with
  | error fault =>
      rw [built] at fraction
      exact nomatch fraction
  | ok root =>
      rw [built] at fraction
      obtain rfl := Option.some.inj fraction
      obtain ⟨num, den⟩ := parts_ofRatio (Int.natCast_pos.mpr positive) coprime built
      refine ⟨by omega, ?_, ?_⟩
      · rw [num, ← Nat.cast_mul, topSquare]
        omega
      · rw [Int.ofNat.inj den, bottomSquare]

-----------------------------------------------------------------------------------------
-- Order
-----------------------------------------------------------------------------------------

theorem cross_lt_iff {a b : Rational}
    : a.num * b.den < b.num * a.den ↔ a.toRat < b.toRat := by
  rw [toRat, toRat, div_lt_div_iff₀ (Nat.cast_pos.mpr a.den_pos) (Nat.cast_pos.mpr b.den_pos)]
  exact_mod_cast Iff.rfl

/-- Cross multiplication orders fractions like the rational numbers that they denote. -/
theorem compare_eq (a b : Rational)
    : compare a b = compare a.toRat b.toRat := by
  have crossed : compare a b = compare (a.num * b.den) (b.num * a.den) := rfl
  rcases lt_trichotomy a.toRat b.toRat with less | same | greater
  · have order : compare a.toRat b.toRat = .lt := compare_lt_iff_lt.mpr less
    rw [crossed, order]
    exact compare_lt_iff_lt.mpr (cross_lt_iff.mpr less)
  · obtain rfl := toRat_injective same
    have order : compare a.toRat a.toRat = .eq := compare_eq_iff_eq.mpr rfl
    rw [crossed, order]
    exact compare_eq_iff_eq.mpr rfl
  · have order : compare a.toRat b.toRat = .gt := compare_gt_iff_gt.mpr greater
    rw [crossed, order]
    exact compare_gt_iff_gt.mpr (cross_lt_iff.mpr greater)

-----------------------------------------------------------------------------------------
-- Numbers on the way to a result
-----------------------------------------------------------------------------------------

/-- The numbers that operations on two fractions and their comparison go through. -/
def crossParts (a b : Rational) : List Int :=
  [a.num * b.den, b.num * a.den, a.num * b.den + b.num * a.den, a.den * b.den, a.num * b.num,
    a.den * b.num]

/-- The parts of a fraction are words in size. -/
theorem abs_parts_le (a : Rational)
    : |a.num| ≤ wordBound ∧ |(a.den : Int)| < wordBound := by
  refine ⟨abs_le.mpr ⟨a.num_fits.1, a.num_fits.2.le⟩, ?_⟩
  rw [abs_of_nonneg (Int.natCast_nonneg _)]
  exact a.den_fits.2

/-- No number on the way to a result leaves a double word, and neither does its opposite. -/
theorem abs_crossParts_lt (a b : Rational)
    : ∀ part ∈ crossParts a b, |part| < 2 * wordBound ^ 2 := by
  have bound : (0 : Int) < wordBound := by decide
  obtain ⟨aNum, aDen⟩ := a.abs_parts_le
  obtain ⟨bNum, bDen⟩ := b.abs_parts_le
  have product {x y : Int} (hx : |x| ≤ wordBound) (hy : |y| ≤ wordBound)
      : |x * y| ≤ wordBound ^ 2 := by
    rw [abs_mul, sq]
    exact mul_le_mul hx hy (abs_nonneg y) bound.le
  have cross {x y : Int} (hx : |x| ≤ wordBound) (hy : |y| < wordBound)
      : |x * y| < wordBound ^ 2 := by
    rw [abs_mul, sq]
    exact mul_lt_mul' hx hy (abs_nonneg y) bound
  have square : (0 : Int) < wordBound ^ 2 := pow_pos bound 2
  have sum : |a.num * b.den + b.num * a.den| < 2 * wordBound ^ 2 := by
    have := abs_add_le (a.num * b.den) (b.num * a.den)
    have := cross aNum bDen
    have := cross bNum aDen
    omega
  simp only [crossParts, List.forall_mem_cons, List.not_mem_nil, false_imp_iff, implies_true,
    and_true]
  refine ⟨?_, ?_, sum, ?_, ?_, ?_⟩
  · exact (product aNum bDen.le).trans_lt (by omega)
  · exact (product bNum aDen.le).trans_lt (by omega)
  · exact (product aDen.le bDen.le).trans_lt (by omega)
  · exact (product aNum bNum).trans_lt (by omega)
  · exact (product aDen.le bNum).trans_lt (by omega)

/-- Arithmetic on fractions is canonical and exact.
A fraction is in lowest terms, also where an operation builds it without reducing it. Quotients of
integers, sums, products, quotients, opposites and absolute values give the fraction of the exact
result whenever there is one whose parts fit in a word; a division by zero, and that alone, is
answered as such, and all other results are overflows. Differences and powers are exact when they
have a result. Fractions are ordered like the numbers that they denote, and equal in that order only
when their parts are. No number on the way leaves a double word.
-/
theorem operations_exact (a b : Rational)
    : (0 < a.den ∧ a.num.gcd a.den = 1)
      ∧ (∀ r, a.neg = .ok r → r.num = -a.num ∧ r.den = a.den)
      ∧ (∀ r, a.abs = .ok r → r.num = |a.num| ∧ r.den = a.den)
      ∧ (∀ r,
          a.sqrt? = some r
          → 0 ≤ r.num ∧ r.num * r.num = a.num ∧ r.den * r.den = a.den)
      ∧ (∀ q,
          (∀ r, ofRat q = .ok r ↔ r.toRat = q)
          ∧ (ofRat q = .error .overflow ↔ ¬ Representable q))
      ∧ (∀ num den : Int,
          ofRatio num den
            = if den = 0 then .error .divisionByZero else ofRat (num / den))
      ∧ a.add b = ofRat (a.toRat + b.toRat)
      ∧ a.mul b = ofRat (a.toRat * b.toRat)
      ∧ a.div b
        = (if b.toRat = 0 then .error .divisionByZero else ofRat (a.toRat / b.toRat))
      ∧ a.neg = ofRat (-a.toRat)
      ∧ a.abs = ofRat |a.toRat|
      ∧ (∀ r, a.sub b = .ok r → r.toRat = a.toRat - b.toRat)
      ∧ (∀ exponent r,
          a.pow exponent = .ok r
          → (exponent < 0 → a.toRat ≠ 0) ∧ r.toRat = a.toRat ^ exponent)
      ∧ compare a b = compare a.toRat b.toRat
      ∧ (compare a b = .eq ↔ a.num = b.num ∧ a.den = b.den)
      ∧ ∀ part ∈ crossParts a b, |part| < 2 * wordBound ^ 2 := by
  have equal : compare a b = .eq ↔ a.num = b.num ∧ a.den = b.den := by
    rw [compare_eq, compare_eq_iff_eq]
    constructor
    · intro same
      obtain rfl := toRat_injective same
      exact ⟨rfl, rfl⟩
    · rintro ⟨num, den⟩
      rw [ext_parts num den]
  refine ⟨⟨a.den_pos, a.reduced⟩, fun _ => parts_neg, fun _ => parts_abs, fun _ => parts_sqrt?,
    fun _ => ⟨fun _ => ofRat_eq_ok_iff, ofRat_eq_overflow_iff⟩, ofRatio_eq, add_eq a b, mul_eq a b,
    div_eq a b, neg_eq a, abs_eq a, fun _ => toRat_sub, fun _ _ => toRat_pow, compare_eq a b, equal,
    abs_crossParts_lt a b⟩

/-- A square with a numerator in the upper half of the words. -/
def largeSquare : Rational :=
  { num := 0x4000000000000000
    den := 81
    den_pos := by decide
    reduced := by decide
    num_fits := by decide
    den_fits := by decide }

/-- The difference between a large square and the greatest word over eighty-one. -/
def shortOfLimit : Rational :=
  { num := -0x1555555555555555
    den := 27
    den_pos := by decide
    reduced := by decide
    num_fits := by decide
    den_fits := by decide }

/-- At the edge of words differences, powers and roots are exact, and opposites fit. -/
theorem operations_exact_large
    : ∃ difference reciprocal root opposite,
        largeSquare.sub shortOfLimit = .ok difference
        ∧ difference.num = wordBound - 1
        ∧ difference.toRat = largeSquare.toRat - shortOfLimit.toRat
        ∧ largeSquare.pow (-1) = .ok reciprocal
        ∧ reciprocal.toRat = largeSquare.toRat ^ (-1 : Int)
        ∧ largeSquare.sqrt? = some root
        ∧ root.num * root.num = largeSquare.num
        ∧ shortOfLimit.neg = .ok opposite
        ∧ opposite.num = -shortOfLimit.num
        ∧ shortOfLimit.abs = .ok opposite
        ∧ opposite.num = |shortOfLimit.num|
        ∧ |largeSquare.num * shortOfLimit.num| < 2 * wordBound ^ 2 := by
  obtain ⟨_, _, _, sqrt, _, _, _, _, _, _, _, sub, pow, _, _, parts⟩ :=
    operations_exact largeSquare shortOfLimit
  obtain ⟨_, neg, abs, _⟩ := operations_exact shortOfLimit largeSquare
  let root : Rational :=
    ⟨0x80000000, 9, by decide, by decide, by decide, by decide⟩
  have rooted : largeSquare.sqrt? = some root := by decide +kernel
  refine ⟨⟨wordBound - 1, 81, by decide, by decide, by decide, by decide⟩,
    ⟨81, 0x4000000000000000, by decide, by decide, by decide, by decide⟩, root,
    ⟨0x1555555555555555, 27, by decide, by decide, by decide, by decide⟩,
    rfl, rfl, sub _ rfl, rfl, (pow _ _ rfl).2, rooted, (sqrt _ rooted).2.1, rfl, (neg _ rfl).1,
    rfl, (abs _ rfl).1, parts _ (by simp [crossParts])⟩

end QuizVariants.Rational
