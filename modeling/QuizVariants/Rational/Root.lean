import QuizVariants.Rational.Basic

/-! Exact square roots.
A fraction in lowest terms is a square exactly when both of its parts are.
-/

namespace QuizVariants

/-- The greatest natural number whose square is at most `n`: twice the root of a quarter of `n`,
or one more. -/
def naturalRoot (n : Nat) : Nat :=
  if small : n = 0 then 0
  else
    let half := 2 * naturalRoot (n / 4)
    if (half + 1) * (half + 1) ≤ n then half + 1 else half
termination_by n
decreasing_by omega

/-- The root of a natural number that is a square. -/
def exactRoot? (n : Nat) : Option Nat :=
  let root := naturalRoot n
  if root * root = n then some root else none

/-- The integer root is the greatest number whose square is at most `n`, by induction on the
quarters of `n`. -/
theorem naturalRoot_bounds (n : Nat)
    : naturalRoot n * naturalRoot n ≤ n
      ∧ n < (naturalRoot n + 1) * (naturalRoot n + 1) := by
  induction n using Nat.strongRecOn with
  | ind n ih =>
    unfold naturalRoot
    split
    · next zero => simp [zero]
    · next positive =>
      have smaller := ih (n / 4) (by omega)
      generalize naturalRoot (n / 4) = root at smaller
      have square : 2 * root * (2 * root) = 4 * (root * root) := by
        rw [Nat.mul_mul_mul_comm]
      have above : (2 * root + 1 + 1) * (2 * root + 1 + 1) = 4 * ((root + 1) * (root + 1)) := by
        rw [show 2 * root + 1 + 1 = 2 * (root + 1) by omega, Nat.mul_mul_mul_comm]
      dsimp only
      split
      · next fits => exact ⟨fits, by omega⟩
      · next tooLarge => exact ⟨by omega, by omega⟩

/-- A root is exact when it exists. -/
theorem mul_self_of_exactRoot? {n root : Nat} (h : exactRoot? n = some root)
    : root * root = n := by
  simp only [exactRoot?] at h
  split at h <;> simp_all

namespace Rational

/-- The square root of a fraction when it is a fraction. -/
def sqrt? (r : Rational) : Option Rational :=
  if r.num < 0 then none
  else do
    let top ← exactRoot? r.num.natAbs
    let bottom ← exactRoot? r.den
    (ofRatio top bottom).toOption

end Rational

end QuizVariants
