import QuizVariants.Proofs.Machine.Roots

/-! Squares of rational numbers.
A fraction in lowest terms is a square exactly when both of its parts are, and the roots of the
parts are in lowest terms again. Main statement: a root that is found is the root, whatever numbers
the search starts from, and where none is found there is none, as long as it starts next to the
roots of the parts. The floats of a machine lead there.
-/

namespace QuizVariants.Rational

open QuizVariants.Machine (rootNear? root_of_rootNear? rootNear?_eq exactRoot?_mul_self lowest_roots
  floatEstimate floatEstimate_near abs_sub_le_of_near)

-----------------------------------------------------------------------------------------
-- Roots of fractions and of their parts
-----------------------------------------------------------------------------------------

/-- Roots of both parts of a fraction are the parts of its root. -/
theorem exists_sqrt?_of_squares {r : Rational} {top bottom : Nat}
    (num : ((top * top : Nat) : Int) = r.num) (den : bottom * bottom = r.den)
    : ∃ root, r.sqrt? = some root ∧ root.num = top ∧ root.den = bottom := by
  obtain ⟨root, reduced, -⟩ := lowest_roots num den
  have size : r.num.natAbs = top * top := by rw [← num, Int.natAbs_natCast]
  have coprime : (top : Int).natAbs.Coprime (bottom : Int).natAbs :=
    coprime_of_squares size.symm den
  have positive : 0 < bottom :=
    Nat.pos_of_ne_zero (fun zero => r.den_pos.ne' (by rw [← den, zero]))
  obtain ⟨rootNum, rootDen⟩ := parts_ofRatio (Int.natCast_pos.mpr positive) coprime reduced
  refine ⟨root, ?_, rootNum, Int.ofNat.inj rootDen⟩
  have nonnegative : ¬ r.num < 0 := by omega
  rw [sqrt?, if_neg nonnegative, size, ← den]
  simp only [exactRoot?_mul_self, Option.bind_eq_bind, Option.bind_some, reduced]
  rfl

/-- The square of a root is the fraction that it is the root of. -/
theorem toRat_mul_self_of_sqrt? {r root : Rational} (h : r.sqrt? = some root)
    : root.toRat * root.toRat = r.toRat := by
  obtain ⟨-, num, den⟩ := parts_sqrt? h
  rw [toRat, toRat, div_mul_div_comm, ← Int.cast_mul, ← Nat.cast_mul, num, den]

/-- A fraction without a root is the square of no rational number: the parts of such a number would
be roots of its parts. -/
theorem sqrt?_eq_none_iff {r : Rational} : r.sqrt? = none ↔ ∀ q : ℚ, q * q ≠ r.toRat := by
  constructor
  · intro none q square
    have num : ((q.num.natAbs * q.num.natAbs : Nat) : Int) = r.num := by
      rw [Int.natAbs_mul_self, ← Rat.mul_self_num, square, num_toRat]
    have den : q.den * q.den = r.den := by
      rw [← Rat.mul_self_den, square, den_toRat]
    obtain ⟨root, found, -⟩ := exists_sqrt?_of_squares num den
    exact nomatch none.symm.trans found
  · intro apart
    cases found : r.sqrt? with
    | none => rfl
    | some root => exact absurd (toRat_mul_self_of_sqrt? found) (apart root.toRat)

-----------------------------------------------------------------------------------------
-- The search next to estimates
-----------------------------------------------------------------------------------------

/-- Numbers that are one away from the roots of words at most. -/
def EstimatesRoots (estimate : Int → Int) : Prop :=
  ∀ n : Nat, Fits n → |(estimate n : ℝ) - √n| ≤ 1

/-- The roots of the parts of a fraction that are found next to estimates of them. -/
def rootParts? (estimate : Int → Int) (r : Rational) : Option (Int × Int) :=
  if r.num < 0 then none
  else do
    let top ← rootNear? (estimate r.num) r.num
    let bottom ← rootNear? (estimate r.den) r.den
    return (top, bottom)

/-- The parts of a root: words in lowest terms whose quotient is not negative and has the fraction
for its square. -/
structure IsRoot (r : Rational) (top bottom : Int) : Prop where
  nonnegative : 0 ≤ top
  positive : 0 < bottom
  fits : Fits top ∧ Fits bottom
  coprime : top.gcd bottom = 1
  square : (top / bottom : ℚ) * (top / bottom) = r.toRat

/-- The parts of a fraction that is the root of another one. -/
theorem IsRoot.of_sqrt? {r root : Rational} (h : r.sqrt? = some root)
    : IsRoot r root.num root.den where
  nonnegative := (parts_sqrt? h).1
  positive := Int.natCast_pos.mpr root.den_pos
  fits := ⟨root.num_fits, root.den_fits⟩
  coprime := root.reduced
  square := toRat_mul_self_of_sqrt? h

/-- What is found next to any numbers are the parts of the root. -/
theorem sqrt?_of_rootParts? {estimate : Int → Int} {r : Rational} {top bottom : Int}
    (h : rootParts? estimate r = some (top, bottom))
    : ∃ root, r.sqrt? = some root ∧ root.num = top ∧ root.den = bottom := by
  unfold rootParts? at h
  split at h
  · exact nomatch h
  simp only [Option.bind_eq_bind, Option.bind_eq_some_iff] at h
  obtain ⟨first, foundTop, second, foundBottom, same⟩ := h
  obtain ⟨rfl, rfl⟩ := Prod.mk.inj (Option.some.inj same)
  obtain ⟨topSign, topSquare⟩ := root_of_rootNear? foundTop
  obtain ⟨bottomSign, bottomSquare⟩ := root_of_rootNear? foundBottom
  obtain ⟨numRoot, rfl⟩ := Int.eq_ofNat_of_zero_le topSign
  obtain ⟨denRoot, rfl⟩ := Int.eq_ofNat_of_zero_le bottomSign
  obtain ⟨root, found, rootNum, rootDen⟩ := exists_sqrt?_of_squares
    (by exact_mod_cast topSquare) (by exact_mod_cast bottomSquare)
  exact ⟨root, found, rootNum, by rw [rootDen]⟩

/-- Next to an estimate the root of a word is found, if it has one. -/
theorem EstimatesRoots.rootNear?_eq {estimate : Int → Int} (h : EstimatesRoots estimate) {n : Nat}
    (fits : Fits n)
    : rootNear? (estimate n) n = (exactRoot? n).map Nat.cast :=
  Machine.rootNear?_eq fun _ square => abs_sub_le_of_near (h n fits) square

/-- Next to estimates the parts of a root are found, if there is one. -/
theorem EstimatesRoots.rootParts?_eq {estimate : Int → Int} (h : EstimatesRoots estimate)
    (r : Rational)
    : rootParts? estimate r = r.sqrt?.map (fun root => (root.num, (root.den : Int))) := by
  cases exact : r.sqrt? with
  | none =>
      cases parts : rootParts? estimate r with
      | none => rfl
      | some found =>
          obtain ⟨root, other, -⟩ := sqrt?_of_rootParts? parts
          exact nomatch exact.symm.trans other
  | some root =>
      obtain ⟨sign, num, den⟩ := parts_sqrt? exact
      have nonnegative : ¬ r.num < 0 := not_lt.mpr (num ▸ mul_self_nonneg root.num)
      obtain ⟨size, isSize⟩ := Int.eq_ofNat_of_zero_le sign
      have near {n root : Nat} {word : Int} (fits : Fits word) (square : root * root = n)
          (same : n = word)
          : rootNear? (estimate word) word = some (root : Int) := by
        subst same square
        rw [h.rootNear?_eq fits, exactRoot?_mul_self]
        rfl
      have top : rootNear? (estimate r.num) r.num = some root.num := by
        rw [isSize] at num ⊢
        exact near r.num_fits rfl (by exact_mod_cast num)
      have bottom : rootNear? (estimate r.den) r.den = some (root.den : Int) :=
        near r.den_fits den rfl
      rw [rootParts?, if_neg nonnegative, top, bottom]
      rfl

/-- The root of the nearest float is an estimate. -/
theorem estimatesRoots_floatEstimate : EstimatesRoots floatEstimate := by
  intro n fits
  obtain ⟨guess, isGuess, -, near⟩ := floatEstimate_near fits
  rw [isGuess]
  exact_mod_cast near.le

/-- Exact square roots are sound and complete.
A root in lowest terms that is not negative is found exactly where some rational number has the
fraction for its square, and a machine, which looks for the roots of both parts next to roots of
floats, finds the same. A search that starts anywhere finds nothing but the parts of the root, in
lowest terms without being reduced; one that starts at most one away from the roots of the parts
finds them whenever there are any. The floats of a machine lead there for every word.
-/
theorem sqrt?_sound_complete (r : Rational)
    : (∀ root,
        r.sqrt? = some root
        → 0 ≤ root.num ∧ root.num.gcd root.den = 1 ∧ root.toRat * root.toRat = r.toRat)
      ∧ (r.sqrt? = none ↔ ∀ q : ℚ, q * q ≠ r.toRat)
      ∧ Machine.sqrt? r = .ok r.sqrt?
      ∧ (∀ estimate top bottom,
          rootParts? estimate r = some (top, bottom) → IsRoot r top bottom)
      ∧ (∀ estimate,
          EstimatesRoots estimate
          → (rootParts? estimate r = none ↔ ∀ q : ℚ, q * q ≠ r.toRat))
      ∧ EstimatesRoots floatEstimate := by
  refine ⟨fun root found => ?_, sqrt?_eq_none_iff, Machine.sqrt?_eq r, ?_, ?_,
    estimatesRoots_floatEstimate⟩
  · exact ⟨(parts_sqrt? found).1, root.reduced, toRat_mul_self_of_sqrt? found⟩
  · intro estimate top bottom found
    obtain ⟨root, exact, rfl, rfl⟩ := sqrt?_of_rootParts? found
    exact .of_sqrt? exact
  · intro estimate estimates
    rw [estimates.rootParts?_eq, Option.map_eq_none_iff, sqrt?_eq_none_iff]

end QuizVariants.Rational
