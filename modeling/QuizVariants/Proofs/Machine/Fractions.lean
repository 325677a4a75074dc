import QuizVariants.Proofs.Machine.Steps
import QuizVariants.Proofs.Rational.Canonical
import QuizVariants.Rational.Rounding

/-! Fractions on a machine.
Sums and products of the parts of fractions are taken in pairs of words, and their results are
brought to lowest terms there. The parts of fractions are words, so that no step on the way is out
of range.
-/

namespace QuizVariants.Machine

-----------------------------------------------------------------------------------------
-- Operations on fractions, step by step
-----------------------------------------------------------------------------------------

theorem natAbs_lt_of_remainder {a b rest : Int} (h : remainder a b = .ok rest)
    : rest.natAbs < b.natAbs := by
  obtain ⟨_, ran, same⟩ := bind_eq_ok_iff.mp h
  obtain rfl : a.tmod b = rest := Except.ok.inj same
  have some : b ≠ 0 := by
    rintro rfl
    exact nomatch ran
  rw [Int.natAbs_tmod]
  exact Nat.mod_lt _ (Int.natAbs_pos.mpr some)

/-- The greatest common divisor of two numbers that are not negative, by Euclid's algorithm. -/
def euclid (a b : Int) : Result Int :=
  if b = 0 then .ok a
  else
    match ran : remainder a b with
    | .error ending => .error ending
    | .ok rest =>
      have : rest.natAbs < b.natAbs := natAbs_lt_of_remainder ran
      euclid b rest
termination_by b.natAbs

/-- The fraction with two parts, which have to be words in lowest terms. -/
def lowest (num den : Int) : Result Rational :=
  if fits : Fits num ∧ Fits den then
    if reduced : 0 < den ∧ num.natAbs.Coprime den.toNat then
      .ok
        { num
          den := den.toNat
          den_pos := by omega
          reduced := reduced.2
          num_fits := fits.1
          den_fits := (Int.toNat_of_nonneg reduced.1.le).symm ▸ fits.2 }
    else .error (.refused .fraction)
  else .error (.error (.arithmetic .overflow))

/-- The fraction of two pairs of words. -/
def ratio (num den : Int) : Result Rational := do
  if den = 0 then throw (.error (.arithmetic .divisionByZero))
  let common := max (← euclid (← pair num.natAbs) (← pair den.natAbs)) 1
  let top ← quotient num common
  let bottom ← quotient den common
  if bottom < 0 then lowest (← pair (-top)) (← pair (-bottom)) else lowest top bottom

def add (a b : Rational) : Result Rational := do
  let first ← pair (a.num * b.den)
  let second ← pair (b.num * a.den)
  let num ← pair (first + second)
  ratio num (← pair (a.den * b.den))

/-- The opposite, unless it is no word. -/
def neg (a : Rational) : Result Rational :=
  lowest (-a.num) a.den

def sub (a b : Rational) : Result Rational := do
  add a (← neg b)

def mul (a b : Rational) : Result Rational := do
  ratio (← pair (a.num * b.num)) (← pair (a.den * b.den))

def div (a b : Rational) : Result Rational := do
  ratio (← pair (a.num * b.den)) (← pair (a.den * b.num))

def abs (a : Rational) : Result Rational :=
  if a.num < 0 then neg a else .ok a

/-- A power with an exponent that is not negative. -/
def naturalPow (base : Rational) (exponent : Nat) : Result Rational :=
  if Rational.exponentBound ≤ exponent then .error (.error (.arithmetic .overflow))
  else do
    let top ← ofExcept (exactly (Rational.wordPower base.num exponent))
    let bottom ← ofExcept (exactly (Rational.wordPower base.den exponent))
    ratio top bottom

def pow (a : Rational) (exponent : Int) : Result Rational :=
  if exponent < 0 then do
    let base ← div 1 a
    naturalPow base exponent.natAbs
  else naturalPow a exponent.natAbs

def order (a b : Rational) : Result Ordering := do
  return compare (← pair (a.num * b.den)) (← pair (b.num * a.den))

def floor (r : Rational) : Result Int :=
  if r.den = 0 then .error (.refused .division) else word (r.num / r.den)

def ceil (r : Rational) : Result Int := do
  let below ← floor r
  if r.isInteger then return below else word (below + 1)

def round (r : Rational) : Result Int := do
  let below ← floor r
  let product ← pair (below * r.den)
  let rest ← pair (r.num - product)
  let twice ← pair (2 * rest)
  if twice < r.den then return below
  else if (r.den : Int) < twice then word (below + 1)
  else if below % 2 = 0 then return below
  else word (below + 1)

-----------------------------------------------------------------------------------------
-- Bringing a fraction to lowest terms
-----------------------------------------------------------------------------------------

/-- Numbers whose opposites are pairs of words, too. -/
def InPair (n : Int) : Prop :=
  n.natAbs < pairBound

theorem InPair.fits {n : Int} (h : InPair n) : FitsPair n := by
  simp only [InPair, FitsPair, pairBound] at *
  omega

theorem InPair.of_le {n m : Int} (h : InPair n) (le : m.natAbs ≤ n.natAbs) : InPair m := by
  simp only [InPair] at *
  omega

theorem InPair.neg {n : Int} (h : InPair n) : InPair (-n) :=
  h.of_le (Int.natAbs_neg n).le

/-- No step of Euclid's algorithm is out of range, by induction on the second number. -/
theorem euclid_eq (a b : Nat) (ha : InPair a) (hb : InPair b) : euclid a b = .ok (Nat.gcd a b) := by
  induction b using Nat.strongRecOn generalizing a with
  | ind b ih =>
      rw [euclid]
      by_cases zero : b = 0
      · rw [if_pos (by exact_mod_cast zero), zero, Nat.gcd_zero_right]
      · have divides : (b : Int) ≠ 0 := by exact_mod_cast zero
        have rest : a % b < b := Nat.mod_lt a (Nat.pos_of_ne_zero zero)
        have small : InPair ((a : Int).tdiv b) := by
          refine ha.of_le ?_
          rw [Int.natAbs_tdiv]
          exact Nat.div_le_self _ _
        have ran : remainder a b = .ok ((a % b : Nat) : Int) := by
          rw [remainder, quotient_of_fits divides small.fits]
          change Except.ok ((a : Int).tmod b) = _
          rw [← Int.ofNat_tmod]
        have next := ih (a % b) rest b hb
          (hb.of_le (by rw [Int.natAbs_natCast, Int.natAbs_natCast]; exact rest.le))
        rw [if_neg divides]
        split
        · next failed => cases ran.symm.trans failed
        · next found =>
          obtain rfl := Except.ok.inj (ran.symm.trans found)
          rw [next, Nat.gcd_comm a b, Nat.gcd_comm b, ← Nat.gcd_rec]

/-- Both parts divided by their greatest common divisor are in lowest terms. -/
theorem lowest_eq {num den : Int} (some : den ≠ 0)
    : lowest (den.sign * (num / num.gcd den)) (den.natAbs / num.gcd den : Nat)
        = ofExcept (exactly (Rational.ofRatio num den)) := by
  have positive : 0 < den.natAbs / num.gcd den :=
    Nat.div_pos
      (Nat.le_of_dvd (Int.natAbs_pos.mpr some) (Int.gcd_dvd_natAbs_right num den))
      (Int.gcd_pos_of_ne_zero_right num some)
  have coprime := @Rational.coprime_div_gcd num den some
  rw [lowest, Rational.ofRatio, dif_neg some]
  dsimp only
  split
  · next fits =>
    rw [dif_pos ⟨Int.natCast_pos.mpr positive, by rwa [Int.toNat_natCast]⟩]
    exact congrArg Except.ok (Rational.ext_parts rfl (Int.toNat_natCast _))
  · rfl

/-- No step to the fraction of two pairs of words is out of range. -/
theorem ratio_eq {num den : Int} (top : InPair num) (bottom : InPair den)
    : ratio num den = ofExcept (exactly (Rational.ofRatio num den)) := by
  rw [ratio]
  by_cases zero : den = 0
  · rw [if_pos zero, zero]
    rfl
  have positive : 0 < num.gcd den := Int.gcd_pos_of_ne_zero_right num zero
  have size {n : Int} (h : InPair n) : InPair (n.natAbs : Int) :=
    h.of_le (Int.natAbs_natCast _).le
  have common : max ((num.natAbs.gcd den.natAbs : Nat) : Int) 1 = num.gcd den :=
    max_eq_left (by exact_mod_cast positive)
  have divided {n : Int} (h : InPair n) (divides : (num.gcd den : Int) ∣ n)
      : InPair (n / num.gcd den) ∧ quotient n (num.gcd den) = .ok (n / num.gcd den) := by
    have same : n.tdiv (num.gcd den) = n / num.gcd den := Int.tdiv_eq_ediv_of_dvd divides
    have small : InPair (n / num.gcd den) :=
      h.of_le (same ▸ (Int.natAbs_tdiv n _).trans_le (Nat.div_le_self _ _))
    refine ⟨small, ?_⟩
    rw [quotient_of_fits (by exact_mod_cast positive.ne') (same ▸ small.fits), same]
  obtain ⟨topSmall, topDivided⟩ := divided top (Int.gcd_dvd_left num den)
  obtain ⟨bottomSmall, bottomDivided⟩ := divided bottom (Int.gcd_dvd_right num den)
  have result := @lowest_eq num den zero
  have bottomSize : ((den.natAbs / num.gcd den : Nat) : Int) = den.sign * (den / num.gcd den) := by
    rw [Int.natCast_ediv, ← Int.mul_ediv_assoc _ (Int.gcd_dvd_right num den), Int.sign_mul_self]
  simp only [if_neg zero, pair_of_fits (size top).fits, pair_of_fits (size bottom).fits,
    euclid_eq _ _ (size top) (size bottom), common, topDivided, bottomDivided, ok_bind]
  -- A negative second part hands its sign over to the first one.
  rcases lt_or_gt_of_ne zero with negative | positive
  · rw [if_pos (Int.ediv_neg_of_neg_of_pos negative (by omega)), pair_of_fits topSmall.neg.fits,
      ok_bind, pair_of_fits bottomSmall.neg.fits, ok_bind, ← result, bottomSize,
      Int.sign_eq_neg_one_of_neg negative, neg_one_mul, neg_one_mul]
  · rw [if_neg (Int.ediv_nonneg positive.le (by omega)).not_gt, ← result, bottomSize,
      Int.sign_eq_one_of_pos positive, one_mul, one_mul]

-----------------------------------------------------------------------------------------
-- Operations on fractions
-----------------------------------------------------------------------------------------

@[simp]
theorem ofExcept_exactly_ok (value : α)
    : ofExcept (exactly (.ok value : Except Rational.Fault α)) = .ok value :=
  rfl

/-- Numbers on the way to the result of an operation are pairs of words. -/
theorem inPair_crossParts (a b : Rational) {part : Int} (h : part ∈ Rational.crossParts a b)
    : InPair part := by
  have bounded := Rational.abs_crossParts_lt a b part h
  have bound : 2 * wordBound ^ 2 = pairBound := by decide
  rw [InPair, Int.natCast_natAbs]
  omega

theorem add_eq (a b : Rational) : add a b = ofExcept (exactly (a.add b)) := by
  have inPair {part : Int} := @inPair_crossParts a b part
  have first : InPair (a.num * b.den) := inPair (by simp [Rational.crossParts])
  have second : InPair (b.num * a.den) := inPair (by simp [Rational.crossParts])
  have sum : InPair (a.num * b.den + b.num * a.den) := inPair (by simp [Rational.crossParts])
  have bottom : InPair (a.den * b.den) := inPair (by simp [Rational.crossParts])
  rw [add, pair_of_fits first.fits, ok_bind, pair_of_fits second.fits, ok_bind,
    pair_of_fits sum.fits, ok_bind, pair_of_fits bottom.fits, ok_bind, ratio_eq sum bottom,
    Rational.add]

theorem mul_eq (a b : Rational) : mul a b = ofExcept (exactly (a.mul b)) := by
  have inPair {part : Int} := @inPair_crossParts a b part
  have top : InPair (a.num * b.num) := inPair (by simp [Rational.crossParts])
  have bottom : InPair (a.den * b.den) := inPair (by simp [Rational.crossParts])
  rw [mul, pair_of_fits top.fits, ok_bind, pair_of_fits bottom.fits, ok_bind, ratio_eq top bottom,
    Rational.mul]

theorem div_eq (a b : Rational) : div a b = ofExcept (exactly (a.div b)) := by
  have inPair {part : Int} := @inPair_crossParts a b part
  have top : InPair (a.num * b.den) := inPair (by simp [Rational.crossParts])
  have bottom : InPair (a.den * b.num) := inPair (by simp [Rational.crossParts])
  rw [div, pair_of_fits top.fits, ok_bind, pair_of_fits bottom.fits, ok_bind, ratio_eq top bottom,
    Rational.div]

/-- The opposite of a fraction in lowest terms is in lowest terms. -/
theorem neg_eq (a : Rational) : neg a = ofExcept (exactly a.neg) := by
  have same := @lowest_eq (-a.num) a.den (by exact_mod_cast a.den_pos.ne')
  have common : (-a.num).gcd a.den = 1 := by
    rw [Int.neg_gcd]
    exact a.reduced
  rw [common, Int.sign_eq_one_of_pos (by exact_mod_cast a.den_pos)] at same
  simpa [neg, Rational.neg] using same

theorem sub_eq (a b : Rational) : sub a b = ofExcept (exactly (a.sub b)) := by
  rw [sub, neg_eq, Rational.sub]
  cases b.neg with
  | error fault => rfl
  | ok opposite => exact add_eq a opposite

theorem abs_eq (a : Rational) : abs a = ofExcept (exactly a.abs) := by
  rw [abs, Rational.abs]
  split
  · exact neg_eq a
  · rfl

theorem fits_wordPower {base power : Int} {exponent : Nat}
    (h : Rational.wordPower base exponent = .ok power)
    : Fits power := by
  rw [Rational.wordPower_eq] at h
  split at h
  · next fits => exact Except.ok.inj h ▸ fits
  · exact nomatch h

theorem inPair_of_fits {n : Int} (h : Fits n) : InPair n := by
  simp only [Fits, InPair, wordBound, pairBound] at *
  omega

theorem naturalPow_eq (base : Rational) (exponent : Nat)
    : naturalPow base exponent
        = ofExcept (exactly (
            if Rational.exponentBound ≤ exponent then .error .overflow
            else do
              let top ← Rational.wordPower base.num exponent
              let bottom ← Rational.wordPower base.den exponent
              Rational.ofRatio top bottom)) := by
  rw [naturalPow]
  split
  · rfl
  · cases first : Rational.wordPower base.num exponent with
    | error fault => rfl
    | ok top =>
        cases second : Rational.wordPower base.den exponent with
        | error fault => rfl
        | ok bottom =>
            exact ratio_eq (inPair_of_fits (fits_wordPower first))
              (inPair_of_fits (fits_wordPower second))

theorem pow_eq (a : Rational) (exponent : Int)
    : pow a exponent = ofExcept (exactly (a.pow exponent)) := by
  rw [pow, Rational.pow]
  split
  · rw [div_eq]
    cases Rational.div 1 a with
    | error fault => rfl
    | ok base => exact naturalPow_eq base exponent.natAbs
  · exact naturalPow_eq a exponent.natAbs

theorem order_eq (a b : Rational) : order a b = .ok (a.order b) := by
  have inPair {part : Int} := @inPair_crossParts a b part
  have first : InPair (a.num * b.den) := inPair (by simp [Rational.crossParts])
  have second : InPair (b.num * a.den) := inPair (by simp [Rational.crossParts])
  rw [order, pair_of_fits first.fits, ok_bind, pair_of_fits second.fits, ok_bind]
  rfl

-----------------------------------------------------------------------------------------
-- Rounding
-----------------------------------------------------------------------------------------

theorem floor_eq (r : Rational) : floor r = .ok r.floor := by
  rw [floor, if_neg r.den_pos.ne']
  exact word_of_fits r.fits_floor

theorem ceil_eq (r : Rational) : ceil r = .ok r.ceil := by
  rw [ceil, floor_eq, ok_bind, Rational.ceil]
  by_cases whole : r.den = 1
  · simp [Rational.isInteger, whole]
    rfl
  · simp [Rational.isInteger, whole, word_of_fits (r.fits_floor_add_one whole)]

/-- The step to the next integer is taken only from a fraction that is not whole. -/
theorem round_eq (r : Rational) : round r = .ok r.round := by
  have inPair {n : Int} (low : -(3 * wordBound) ≤ n) (high : n < 3 * wordBound) : FitsPair n := by
    simp only [FitsPair, wordBound, pairBound] at *
    omega
  obtain ⟨low, high⟩ := r.floor_bounds
  have num := r.num_fits
  have den := r.den_fits
  have next : (r.floor + 1) * (r.den : Int) = r.floor * r.den + r.den := by ring
  simp only [Fits, wordBound] at num den
  simp only [wordBound] at inPair
  have product : FitsPair (r.floor * r.den) := inPair (by omega) (by omega)
  have rest : FitsPair (r.num - r.floor * r.den) := inPair (by omega) (by omega)
  have twice : FitsPair (2 * (r.num - r.floor * r.den)) := inPair (by omega) (by omega)
  rw [round, floor_eq, ok_bind, pair_of_fits product, ok_bind, pair_of_fits rest, ok_bind,
    pair_of_fits twice, ok_bind, Rational.round]
  split
  · rfl
  · next far =>
    have part : r.den ≠ 1 := by
      intro whole
      have exact : r.floor * (r.den : Int) = r.num := by
        rw [Rational.floor_of_den_eq_one whole, whole, Nat.cast_one, mul_one]
      omega
    rw [word_of_fits (r.fits_floor_add_one part)]
    split
    · rfl
    · split <;> rfl

end QuizVariants.Machine
