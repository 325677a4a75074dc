import QuizVariants.Proofs.Decimal.Roots
import QuizVariants.Proofs.Machine.Fractions

/-! Roots on a machine.
A machine looks for the root of a word next to the root of the float that is nearest to the word. As
that float root is exact up to rounding, no other candidate can be the root.
-/

namespace QuizVariants.Machine

open QuizVariants.Decimal

-----------------------------------------------------------------------------------------
-- The search for a root
-----------------------------------------------------------------------------------------

/-- A float rounded to a pair of words, a half going away from zero. What is too great or too small
for a pair is the pair nearest to it, and what is no number is zero. -/
def nearestPair (x : Float) : Int :=
  match Denotation.ofFloat x with
  | .nan => 0
  | .infinite negative => if negative then -pairBound else pairBound - 1
  | .finite negative mantissa exponent =>
    let whole := signed negative ((magnitude mantissa exponent).nearest .up)
    max (-pairBound) (min (pairBound - 1) whole)

/-- The first candidate that is the root of a number. -/
def findRoot (n : Int) : List Int → Result (Option Int)
  | [] => return none
  | root :: others => do
    if root < 0 then findRoot n others
    else
      let square ← pair (root * root)
      if square = n then return some root else findRoot n others

/-- The root of a word that is not negative, if it has one. -/
def wordRoot? (n : Int) : Result (Option Int) := do
  let guess := nearestPair (Float.ofInt n).sqrt
  let low ← pair (guess - 1)
  let high ← pair (guess + 1)
  let root? ← findRoot n [low, guess, high]
  return root?.filter (fun root => Fits root)

/-- The square root of a fraction when it is a fraction. -/
def sqrt? (r : Rational) : Result (Option Rational) := do
  if r.num < 0 then return none
  else
    match ← wordRoot? r.num with
    | none => return none
    | some top =>
      match ← wordRoot? r.den with
      | none => return none
      | some bottom => return some (← lowest top bottom)

-----------------------------------------------------------------------------------------
-- The result of the search
-----------------------------------------------------------------------------------------

/-- A natural number that is a square has its root as its exact root. -/
theorem exactRoot?_mul_self (root : Nat) : exactRoot? (root * root) = some root := by
  obtain ⟨low, high⟩ := naturalRoot_bounds (root * root)
  have same : naturalRoot (root * root) = root := by
    have := Nat.mul_self_le_mul_self_iff.mp low
    have := Nat.mul_self_lt_mul_self_iff.mp high
    omega
  simp [exactRoot?, same]

/-- The search finds the first root when all squares are pairs of words, by induction on the
candidates. -/
theorem findRoot_eq {n : Int} {candidates : List Int}
    (small : ∀ root ∈ candidates, FitsPair (root * root))
    : findRoot n candidates
        = .ok (candidates.find? (fun root => 0 ≤ root ∧ root * root = n)) := by
  induction candidates with
  | nil => rfl
  | cons root others ih =>
      rw [List.forall_mem_cons] at small
      rw [findRoot, List.find?_cons]
      by_cases negative : root < 0
      · rw [if_pos negative, ih small.2, decide_eq_false (fun h => negative.not_ge h.1)]
      · rw [if_neg negative, pair_of_fits small.1, ok_bind]
        by_cases found : root * root = n
        · rw [if_pos found, decide_eq_true ⟨not_lt.mp negative, found⟩]
          rfl
        · rw [if_neg found, ih small.2, decide_eq_false (fun h => found h.2)]

/-- Candidates next to a number that is not too great are pairs of words, as their squares are. -/
theorem fitsPair_of_near {guess : Nat} (bounded : guess < 2 ^ 33) {i : Int}
    (low : (guess : Int) - 1 ≤ i) (high : i ≤ guess + 1)
    : FitsPair i ∧ FitsPair (i * i) := by
  have size : |i| ≤ 2 ^ 33 := abs_le.mpr ⟨by omega, by omega⟩
  have square : i * i ≤ 2 ^ 33 * 2 ^ 33 := by
    rw [← abs_mul_abs_self]
    exact mul_self_le_mul_self (abs_nonneg i) size
  have nonnegative := mul_self_nonneg i
  simp only [FitsPair, pairBound]
  omega

/-- The root of a number among an estimate of it and the numbers on both sides. -/
def rootNear? (guess n : Int) : Option Int :=
  [guess - 1, guess, guess + 1].find? (fun root => 0 ≤ root ∧ root * root = n)

/-- Only the root of a number is found. -/
theorem root_of_rootNear? {guess n root : Int} (h : rootNear? guess n = some root)
    : 0 ≤ root ∧ root * root = n := by
  rw [rootNear?] at h
  simpa using List.find?_some h

/-- The root of a number is found next to any estimate that is one away from it at most. -/
theorem rootNear?_eq {n : Nat} {guess : Int}
    (near : ∀ root : Nat, root * root = n → |guess - root| ≤ 1)
    : rootNear? guess n = (exactRoot? n).map Nat.cast := by
  cases found : rootNear? guess n with
  | some root =>
      obtain ⟨nonnegative, square⟩ := root_of_rootNear? found
      obtain ⟨r, rfl⟩ := Int.eq_ofNat_of_zero_le nonnegative
      obtain rfl : r * r = n := by exact_mod_cast square
      rw [exactRoot?_mul_self, Option.map_some]
  | none =>
      cases exact : exactRoot? n with
      | none => rfl
      | some r =>
          have square := mul_self_of_exactRoot? exact
          have close := abs_le.mp (near r square)
          have candidate : (r : Int) ∈ [guess - 1, guess, guess + 1] := by
            simp only [List.mem_cons, List.not_mem_nil, or_false]
            omega
          refine absurd ?_ (List.find?_eq_none.mp found r candidate)
          exact decide_eq_true ⟨Int.natCast_nonneg r, by exact_mod_cast square⟩

/-- The root of a word is a word. -/
theorem fits_of_exactRoot? {n root : Nat} (fits : Fits n) (h : exactRoot? n = some root)
    : Fits root := by
  have size : root ≤ root * root := Nat.le_mul_self root
  rw [mul_self_of_exactRoot? h] at size
  simp only [Fits] at fits ⊢
  omega

/-- The root of a word is estimated by the root of the nearest float. -/
def floatEstimate (n : Int) : Int :=
  nearestPair (Float.ofInt n).sqrt

/-- The estimate by floats is less than one away from the root. -/
theorem floatEstimate_near {n : Nat} (fits : Fits n)
    : ∃ guess : Nat, floatEstimate n = guess ∧ guess < 2 ^ 33 ∧ |(guess : ℝ) - √n| < 1 := by
  have small : n < 2 ^ 63 := by
    have := fits.2
    simp only [wordBound] at this
    omega
  obtain ⟨k, t, denotes, near⟩ := nearest_sqrt small
  obtain ⟨guess, isGuess⟩ : ∃ guess, guess = (magnitude k t).nearest .up := ⟨_, rfl⟩
  rw [← isGuess] at near
  have bounded : guess < 2 ^ 33 := by
    have root : √n < 2 ^ 32 := by
      rw [Real.sqrt_lt' (by positivity)]
      have : (n : ℝ) < 2 ^ 63 := by exact_mod_cast small
      linarith
    have less : (guess : ℝ) < (2 ^ 33 : Nat) := by
      push_cast
      linarith [(abs_lt.mp near).2]
    exact_mod_cast less
  refine ⟨guess, ?_, bounded, near⟩
  have same : Float.ofInt n = Float.ofNat n := rfl
  have positive : signed false guess = guess := rfl
  rw [floatEstimate, same, nearestPair, denotes]
  simp only [← isGuess, positive, pairBound]
  omega

/-- The root of a square is a whole number, so that estimates are compared with that. -/
theorem abs_sub_le_of_near {n root : Nat} {guess : Int} (near : |(guess : ℝ) - √n| ≤ 1)
    (square : root * root = n)
    : |guess - root| ≤ 1 := by
  have exact : √n = root := by
    rw [← square, Nat.cast_mul, Real.sqrt_mul_self root.cast_nonneg]
  rw [exact] at near
  exact_mod_cast near

/-- The search for the root of a word that is not negative finds its root, if it has one. -/
theorem wordRoot?_eq {n : Nat} (fits : Fits n)
    : wordRoot? n = .ok ((exactRoot? n).map Nat.cast) := by
  obtain ⟨guess, isGuess, bounded, near⟩ := floatEstimate_near fits
  have before := fitsPair_of_near bounded le_rfl (by omega)
  have middle := fitsPair_of_near bounded (Int.sub_le_self _ zero_le_one) (by omega)
  have after := fitsPair_of_near bounded (by omega) le_rfl
  have squares : ∀ root ∈ [(guess : Int) - 1, guess, guess + 1], FitsPair (root * root) := by
    simp only [List.forall_mem_cons, List.not_mem_nil, false_imp_iff, implies_true, and_true]
    exact ⟨before.2, middle.2, after.2⟩
  have found : rootNear? guess n = (exactRoot? n).map Nat.cast :=
    rootNear?_eq fun root square => abs_sub_le_of_near (by exact_mod_cast near.le) square
  rw [rootNear?] at found
  rw [wordRoot?, ← floatEstimate, isGuess, pair_of_fits before.1, ok_bind, pair_of_fits after.1,
    ok_bind, findRoot_eq squares, ok_bind, found]
  refine congrArg Except.ok ?_
  cases found : exactRoot? n with
  | none => rfl
  | some root =>
      have word : Fits (root : Int) := fits_of_exactRoot? fits found
      simp [word]

/-- The roots of the parts of a fraction are in lowest terms like the parts. -/
theorem lowest_roots {r : Rational} {top bottom : Nat} (num : (top * top : Nat) = r.num)
    (den : bottom * bottom = r.den)
    : ∃ root, Rational.ofRatio top bottom = .ok root ∧ lowest top bottom = .ok root := by
  have coprime : top.Coprime bottom :=
    Rational.coprime_of_squares (by rw [← num, Int.natAbs_natCast]) den
  have positive : 0 < bottom :=
    Nat.pos_of_ne_zero (fun zero => r.den_pos.ne' (by rw [← den, zero]))
  have word {n : Nat} (square : Fits (n * n : Nat)) : Fits n := by
    have size : n ≤ n * n := Nat.le_mul_self n
    simp only [Fits] at square ⊢
    omega
  have topFits : Fits top := word (num ▸ r.num_fits)
  have bottomFits : Fits bottom := word (den ▸ r.den_fits)
  have same := @lowest_eq top bottom (by exact_mod_cast positive.ne')
  have common : (top : Int).gcd bottom = 1 := coprime
  rw [common, Int.sign_eq_one_of_pos (by exact_mod_cast positive), Nat.cast_one, Int.ediv_one,
    one_mul, Int.natAbs_natCast, Nat.div_one] at same
  have reached : ∃ root, lowest top bottom = .ok root :=
    ⟨_, (dif_pos ⟨topFits, bottomFits⟩).trans
      (dif_pos ⟨by exact_mod_cast positive, coprime⟩)⟩
  obtain ⟨root, lowered⟩ := reached
  refine ⟨root, ?_, lowered⟩
  rw [lowered] at same
  cases reduced : Rational.ofRatio top bottom with
  | error fault =>
      rw [reduced] at same
      cases same
  | ok other =>
      rw [reduced, ofExcept_exactly_ok] at same
      rw [Except.ok.inj same]

/-- A fraction has a root when both of its parts have roots. -/
theorem sqrt?_eq (r : Rational) : sqrt? r = .ok r.sqrt? := by
  rw [sqrt?, Rational.sqrt?]
  split
  · rfl
  next nonnegative =>
  obtain ⟨num, isNum⟩ := Int.eq_ofNat_of_zero_le (not_lt.mp nonnegative)
  have numFits : Fits num := by
    have fits := r.num_fits
    rwa [isNum] at fits
  rw [isNum, wordRoot?_eq numFits, ok_bind, Int.natAbs_natCast]
  cases topRoot : exactRoot? num with
  | none => rfl
  | some top =>
      simp only [Option.map_some, wordRoot?_eq r.den_fits, ok_bind]
      cases bottomRoot : exactRoot? r.den with
      | none => rfl
      | some bottom =>
          have topSquare : ((top * top : Nat) : Int) = r.num := by
            rw [mul_self_of_exactRoot? topRoot, isNum]
          obtain ⟨root, reduced, lowered⟩ :=
            lowest_roots topSquare (mul_self_of_exactRoot? bottomRoot)
          simp only [Option.map_some, ok_bind, lowered, Option.bind_eq_bind, Option.bind_some,
            reduced]
          rfl

end QuizVariants.Machine
