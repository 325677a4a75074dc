import QuizVariants.Proofs.Decimal.Shortest
import QuizVariants.Proofs.Rational.Canonical
import QuizVariants.Value.Basic

/-! Integers among values.
A fraction and a float are read as the integer that they are exactly; a float has to be nearer to
zero than the ends of a word.
-/

namespace QuizVariants

namespace Decimal

/-- The number that a finite float denotes. -/
def exactValue? (x : Float) : Option ℚ :=
  match Denotation.ofFloat x with
  | .finite negative mantissa exponent =>
    some ((if negative then -1 else 1) * (mantissa * 2 ^ exponent))
  | _ => none

/-- A quotient is an integer exactly if nothing is left over. -/
theorem Quotient.toRat_eq_intCast_iff {q : Quotient} (den : 0 < q.den) (n : ℤ)
    : q.toRat = n ↔ q.num % q.den = 0 ∧ ((q.num / q.den : ℕ) : ℤ) = n := by
  have positive : (0 : ℚ) < q.den := by exact_mod_cast den
  rw [Quotient.toRat, div_eq_iff positive.ne']
  constructor
  · intro product
    have product : (q.num : ℤ) = n * q.den := by exact_mod_cast product
    have whole : (q.num : ℤ) % q.den = 0 := product ▸ Int.mul_emod_left n q.den
    refine ⟨by exact_mod_cast whole, ?_⟩
    rw [Int.natCast_ediv, product, Int.mul_ediv_cancel _ (by omega)]
  · rintro ⟨whole, rfl⟩
    have product := Nat.div_mul_cancel (Nat.dvd_of_mod_eq_zero whole)
    exact_mod_cast product.symm

/-- The integer of a float is its exact value. -/
theorem integer?_eq_some_iff {x : Float} {n : ℤ}
    : integer? x = some n ↔ exactValue? x = some (n : ℚ) := by
  rw [integer?, exactValue?]
  cases Denotation.ofFloat x with
  | nan | infinite => simp
  | finite negative mantissa exponent =>
      have den : 0 < (magnitude mantissa exponent).den := Quotient.den_power_pos two_pos exponent
      dsimp only
      rw [Option.some_inj, ← toRat_magnitude]
      cases negative with
      | false =>
          have whole := Quotient.toRat_eq_intCast_iff den n
          rw [if_neg Bool.false_ne_true, one_mul, whole, signed]
          simp [ite_eq_iff]
      | true =>
          have whole := Quotient.toRat_eq_intCast_iff den (-n)
          have opposite : -1 * (magnitude mantissa exponent).toRat = n
              ↔ (magnitude mantissa exponent).toRat = ((-n : ℤ) : ℚ) := by
            push_cast
            rw [neg_one_mul, neg_eq_iff_eq_neg]
          rw [if_pos rfl, opposite, whole, signed]
          simp [ite_eq_iff, neg_eq_iff_eq_neg]

end Decimal

namespace Value

/-- A value that is an integer of a word. A float stands for its exact value, other than the least
word. -/
def IsWord : Value → ℤ → Prop
  | .number r, n => r.toRat = n
  | .float x, n => Decimal.exactValue? x = some (n : ℚ) ∧ n.natAbs < 2 ^ 63
  | _, _ => False

/-- The integers of values are those that they are exactly, by cases on the kind of the value. -/
theorem toInteger_eq_ok_iff {value : Value} {n : ℤ} : value.toInteger = .ok n ↔ value.IsWord n := by
  cases value with
  | number r =>
      rw [toInteger]
      split
      · next whole =>
        rw [IsWord, Rational.toRat_of_isInteger whole, Except.ok.injEq, Int.cast_inj]
      · next parted =>
        refine iff_of_false nofun fun (same : r.toRat = n) => parted ?_
        rw [Rational.isInteger_iff, same, Rat.den_intCast]
  | float x =>
      have found : wordOfFloat? x = some n ↔ (Value.float x).IsWord n := by
        rw [wordOfFloat?, Option.filter_eq_some_iff, Decimal.integer?_eq_some_iff]
        exact and_congr_right fun _ => decide_eq_true_iff
      rw [← found, toInteger]
      cases wordOfFloat? x <;> simp
  | bool | string | list | symbolic => exact iff_of_false nofun id

/-- What is no integer is refused by the name of its kind. -/
theorem toInteger_of_not_isWord {value : Value} (h : ∀ n, ¬ value.IsWord n)
    : value.toInteger = .error (.typeMismatch "integer" value.typeName) := by
  have refused (n : ℤ) : value.toInteger ≠ .ok n := fun found => h n (toInteger_eq_ok_iff.mp found)
  cases value with
  | number r =>
      rw [toInteger] at refused ⊢
      split
      · next whole => exact absurd (if_pos whole) (refused r.num)
      · next parted => simp [typeName, parted]
  | float x =>
      rw [toInteger] at refused ⊢
      cases found : wordOfFloat? x with
      | some n => exact absurd (by rw [found]) (refused n)
      | none => rfl
  | bool | string | list | symbolic => rfl

end Value

end QuizVariants
