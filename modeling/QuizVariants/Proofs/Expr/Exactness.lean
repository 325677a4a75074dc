import QuizVariants.Expr.Eval
import QuizVariants.Proofs.Draws.Runs
import QuizVariants.Proofs.Rational.Exactness

/-! Exact evaluation.
Arithmetic on exact numbers evaluates to the rational number that the expression stands for, or
fails; only a power whose exponent is not whole leaves the exact numbers.
-/

namespace QuizVariants

open QuizVariants.Rational (toRat_add toRat_sub toRat_mul toRat_div toRat_pow toRat_integer
  floor_toRat isInteger_iff num_toRat toRat_neg)

-----------------------------------------------------------------------------------------
-- The rational number that an expression stands for
-----------------------------------------------------------------------------------------

/-- Arithmetic on rational numbers, where it is defined. A remainder has the sign of the divisor,
and exponents are integers. -/
def ArithmeticOp.rational? (op : ArithmeticOp) (x y : ℚ) : Option ℚ :=
  match op with
  | .add => some (x + y)
  | .sub => some (x - y)
  | .mul => some (x * y)
  | .div => if y = 0 then none else some (x / y)
  | .rem => if y = 0 then none else some (x - y * ⌊x / y⌋)
  | .pow => if y.den = 1 ∧ (y < 0 → x ≠ 0) then some (x ^ y.num) else none

namespace Expr

/-- Expressions built from exact numbers and names by signs and arithmetic. -/
def IsArithmetic : Expr → Prop
  | .number _ => True
  | .ident _ => True
  | .unary _ operand => operand.IsArithmetic
  | .binary (.arithmetic _) left right => left.IsArithmetic ∧ right.IsArithmetic
  | _ => False

/-- The rational number that arithmetic stands for, where all of it is defined. -/
def rational? (valueOf : String → Option ℚ) : Expr → Option ℚ
  | .number value => some value.toRat
  | .ident name => valueOf name
  | .unary .pos operand => operand.rational? valueOf
  | .unary .neg operand => (operand.rational? valueOf).map Neg.neg
  | .binary (.arithmetic op) left right => do
    op.rational? (← left.rational? valueOf) (← right.rational? valueOf)
  | _ => none

/-- Some power in an expression has an exponent whose value is a number that is not whole. -/
def HasFractionalPower (scope : Scope) (draws : Draws) : Expr → Prop
  | .unary _ operand => operand.HasFractionalPower scope draws
  | .binary op left right =>
    left.HasFractionalPower scope draws ∨ right.HasFractionalPower scope draws
      ∨ op = .arithmetic .pow ∧ ∃ q rest,
        (right.eval scope).outcome draws = (.ok (.number q), rest) ∧ q.isInteger = false
  | _ => False

end Expr

/-- The rational number that a name is bound to. -/
def Scope.rational? (scope : Scope) (name : String) : Option ℚ :=
  match scope.value? name with
  | some (.number r) => some r.toRat
  | _ => none

-----------------------------------------------------------------------------------------
-- Operations on numbers
-----------------------------------------------------------------------------------------

namespace Operation

/-- A remainder is what is left of the greatest multiple of the divisor below. -/
theorem toRat_remainder {a b r : Rational} (h : remainder a b = .ok r)
    : b.toRat ≠ 0 ∧ r.toRat = a.toRat - b.toRat * ⌊a.toRat / b.toRat⌋ := by
  obtain ⟨quotient, divided, h⟩ := bind_eq_ok_iff.mp h
  obtain ⟨multiple, multiplied, h⟩ := bind_eq_ok_iff.mp h
  obtain ⟨nonzero, ratio⟩ := toRat_div divided
  refine ⟨nonzero, ?_⟩
  rw [toRat_sub h, toRat_mul multiplied, toRat_integer, ← floor_toRat, ratio]

/-- Arithmetic on floats gives floats. -/
theorem exists_of_float {op : ArithmeticOp} {x y : Float} {value : Value}
    (h : float op x y = .ok value)
    : ∃ z, value = .float z := by
  have defined {result : Float} {fault : EvalError}
      (h : (if result.isNaN then Except.error fault else .ok (.float result)) = .ok value)
      : ∃ z, value = .float z := by
    split at h
    · exact nomatch h
    · exact ⟨result, (Except.ok.inj h).symm⟩
  unfold float at h
  cases op with
  | add | sub | mul | pow => exact defined h
  | div | rem =>
      dsimp only at h
      split at h
      · exact nomatch h
      · exact defined h

/-- Arithmetic on fractions is exact, except for powers with an exponent that is not whole. -/
theorem rational?_of_exact {op : ArithmeticOp} {a b : Rational} {value : Value}
    (h : exact op a b = .ok value)
    : (∃ q, value = .number q ∧ op.rational? a.toRat b.toRat = some q.toRat)
      ∨ (∃ x, value = .float x) ∧ op = .pow ∧ b.isInteger = false := by
  have number {result : Except Rational.Fault Rational}
      (h : (exactly result).map Value.number = .ok value)
      (exact : ∀ q, result = .ok q → op.rational? a.toRat b.toRat = some q.toRat)
      : ∃ q, value = .number q ∧ op.rational? a.toRat b.toRat = some q.toRat := by
    obtain ⟨q, computed, rfl⟩ := map_eq_ok_iff.mp h
    exact ⟨q, rfl, exact q (exactly_eq_ok_iff.mp computed)⟩
  cases op with
  | add =>
      refine .inl (number h fun q computed => ?_)
      rw [ArithmeticOp.rational?, toRat_add computed]
  | sub =>
      refine .inl (number h fun q computed => ?_)
      rw [ArithmeticOp.rational?, toRat_sub computed]
  | mul =>
      refine .inl (number h fun q computed => ?_)
      rw [ArithmeticOp.rational?, toRat_mul computed]
  | div =>
      refine .inl (number h fun q computed => ?_)
      obtain ⟨nonzero, ratio⟩ := toRat_div computed
      rw [ArithmeticOp.rational?, if_neg nonzero, ratio]
  | rem =>
      refine .inl (number h fun q computed => ?_)
      obtain ⟨nonzero, rest⟩ := toRat_remainder computed
      rw [ArithmeticOp.rational?, if_neg nonzero, rest]
  | pow =>
      rw [exact] at h
      split at h
      · next whole =>
        refine .inl (number h fun q computed => ?_)
        obtain ⟨nonzero, power⟩ := toRat_pow computed
        have defined : b.toRat < 0 → a.toRat ≠ 0 := by
          intro negative
          rw [← Rat.num_neg, num_toRat] at negative
          exact nonzero negative
        rw [ArithmeticOp.rational?, if_pos ⟨isInteger_iff.mp whole, defined⟩, num_toRat, power]
      · next fractional =>
        exact .inr ⟨exists_of_float h, rfl, eq_false_of_ne_true fractional⟩

/-- Arithmetic on numbers is that on fractions, or one operand is a float already. -/
theorem exact_of_arithmetic {algebra : HostAlgebra} {op : ArithmeticOp} {left right value : Value}
    (hleft : left.isNumeric = true) (hright : right.isNumeric = true)
    (h : arithmetic algebra op left right = .ok value)
    : (∃ a b, left = .number a ∧ right = .number b ∧ exact op a b = .ok value)
      ∨ ((∃ x, left = .float x) ∨ ∃ y, right = .float y) ∧ ∃ z, value = .float z := by
  cases left with
  | number a =>
      cases right with
      | number b => exact .inl ⟨a, b, rfl, rfl, h⟩
      | float y => exact .inr ⟨.inr ⟨y, rfl⟩, exists_of_float h⟩
      | _ => exact nomatch hright
  | float x =>
      cases right with
      | number b => exact .inr ⟨.inl ⟨x, rfl⟩, exists_of_float h⟩
      | float y => exact .inr ⟨.inl ⟨x, rfl⟩, exists_of_float h⟩
      | _ => exact nomatch hright
  | _ => exact nomatch hleft

end Operation

-----------------------------------------------------------------------------------------
-- Evaluation
-----------------------------------------------------------------------------------------

namespace Expr

open Evaluation

/-- A value of arithmetic: the number that the expression stands for, or a float that a power
brought in. -/
inductive IsValue (scope : Scope) (draws : Draws) (e : Expr) : Value → Prop where
  | exact {q : Rational} (value : e.rational? scope.rational? = some q.toRat)
    : IsValue scope draws e (.number q)
  | float {x : Float} (cause : e.HasFractionalPower scope draws)
    : IsValue scope draws e (.float x)

theorem IsValue.isNumeric {scope : Scope} {draws : Draws} {e : Expr} {value : Value}
    (h : e.IsValue scope draws value)
    : value.isNumeric = true := by
  cases h <;> rfl

/-- A sign keeps exact values exact. -/
theorem IsValue.unary {scope : Scope} {draws : Draws} {operand : Expr} {op : UnaryOp}
    {before value : Value} (h : operand.IsValue scope draws before)
    (computed : Operation.unary scope.context.algebra op before = .ok value)
    : (Expr.unary op operand).IsValue scope draws value := by
  cases h with
  | exact stands =>
      cases op with
      | pos =>
          obtain rfl := Except.ok.inj computed
          exact .exact stands
      | neg =>
          obtain ⟨q, negated, rfl⟩ := map_eq_ok_iff.mp computed
          refine .exact ?_
          rw [rational?, stands, toRat_neg (exactly_eq_ok_iff.mp negated)]
          rfl
  | float cause =>
      cases op <;> obtain rfl := Except.ok.inj computed <;> exact .float cause

/-- Arithmetic on values is exact unless a power leaves the exact numbers. -/
theorem IsValue.binary {scope : Scope} {draws rest : Draws} {left right : Expr}
    {op : ArithmeticOp} {first second value : Value} (hleft : left.IsValue scope draws first)
    (hright : right.IsValue scope draws second)
    (evaluated : (right.eval scope).outcome draws = (.ok second, rest))
    (computed : Operation.arithmetic scope.context.algebra op first second = .ok value)
    : (Expr.binary (.arithmetic op) left right).IsValue scope draws value := by
  obtain ⟨a, b, rfl, rfl, computed⟩ | ⟨inexact, z, rfl⟩ :=
    Operation.exact_of_arithmetic hleft.isNumeric hright.isNumeric computed
  · cases hleft with | exact leftStands =>
    cases hright with | exact rightStands =>
    obtain ⟨q, rfl, stands⟩ | ⟨⟨x, rfl⟩, rfl, fractional⟩ := Operation.rational?_of_exact computed
    · refine .exact ?_
      rw [rational?, leftStands, rightStands]
      exact stands
    · exact .float (.inr (.inr ⟨rfl, b, rest, evaluated, fractional⟩))
  -- A float among the operands was brought in by a power inside that operand.
  · rcases inexact with ⟨x, rfl⟩ | ⟨y, rfl⟩
    · cases hleft with | float cause => exact .float (.inl cause)
    · cases hright with | float cause => exact .float (.inr (.inl cause))

/-- Arithmetic makes no draws, and its value is exact unless a power leaves the exact numbers; by
induction on the expression. -/
theorem isValue_of_eval {scope : Scope} {draws rest : Draws} {value : Value} (e : Expr)
    (arithmetic : e.IsArithmetic)
    (bound : ∀ name ∈ e.mentioned, ∃ r, scope.value? name = some (.number r))
    (h : (e.eval scope).outcome draws = (.ok value, rest))
    : rest = draws ∧ e.IsValue scope draws value := by
  match e with
  | .number q =>
      obtain ⟨⟨⟩, rfl⟩ := Prod.mk.inj h
      exact ⟨rfl, .exact rfl⟩
  | .ident name =>
      obtain ⟨r, found⟩ := bound name (List.mem_singleton_self name)
      simp only [eval, found] at h
      obtain ⟨⟨⟩, rfl⟩ := Prod.mk.inj h
      exact ⟨rfl, .exact (by simp only [rational?, Scope.rational?, found])⟩
  | .unary op operand =>
      obtain ⟨before, between, evaluated, last⟩ := outcome_bind_eq_ok_iff.mp h
      obtain ⟨rfl, isValue⟩ := isValue_of_eval operand arithmetic bound evaluated
      obtain ⟨computed, rfl⟩ := Prod.mk.inj last
      exact ⟨rfl, isValue.unary computed⟩
  | .binary (.arithmetic op) left right =>
      obtain ⟨leftArithmetic, rightArithmetic⟩ := arithmetic
      obtain ⟨leftBound, rightBound⟩ := List.forall_mem_append.mp bound
      obtain ⟨first, _, leftEvaluated, later⟩ := outcome_bind_eq_ok_iff.mp h
      obtain ⟨rfl, leftValue⟩ := isValue_of_eval left leftArithmetic leftBound leftEvaluated
      obtain ⟨second, _, rightEvaluated, last⟩ := outcome_bind_eq_ok_iff.mp later
      obtain ⟨rfl, rightValue⟩ := isValue_of_eval right rightArithmetic rightBound rightEvaluated
      obtain ⟨computed, rfl⟩ := Prod.mk.inj last
      exact ⟨rfl, leftValue.binary rightValue rightEvaluated computed⟩
termination_by sizeOf e

/-- Evaluation is exact: a number that arithmetic on exact numbers evaluates to is the rational
number that the expression stands for, and a float needs a power with an exponent that is not
whole.
-/
theorem eval_exact {scope : Scope} {e : Expr} (arithmetic : e.IsArithmetic)
    (bound : ∀ name ∈ e.freeNames, ∃ r, scope.value? name = some (.number r)) (draws : Draws)
    : (∀ q rest, (e.eval scope).outcome draws = (.ok (.number q), rest)
        → e.rational? scope.rational? = some q.toRat)
      ∧ (∀ x rest, (e.eval scope).outcome draws = (.ok (.float x), rest)
        → e.HasFractionalPower scope draws) := by
  have mentioned : ∀ name ∈ e.mentioned, ∃ r, scope.value? name = some (.number r) :=
    fun name member => bound name (mem_freeNames.mpr member)
  constructor
  · intro q rest evaluated
    cases (isValue_of_eval e arithmetic mentioned evaluated).2 with
    | exact stands => exact stands
  · intro x rest evaluated
    cases (isValue_of_eval e arithmetic mentioned evaluated).2 with
    | float cause => exact cause

/-- A scope in which a name stands for seven thirds. -/
def thirds : Scope :=
  { locals := .ofList [("x", .number ⟨7, 3, by decide, by decide, by decide, by decide⟩)]
    context := {} }

/-- The remainder of an opposite by a negative power, `-x % 2 ** -1`. -/
def halvesLeft : Expr :=
  .binary (.arithmetic .rem) (.unary .neg (.ident "x"))
    (.binary (.arithmetic .pow) (.number (.integer 2 fits_two)) (.unary .neg (.number 1)))

/-- Minus seven thirds leave a sixth when halves are taken away. -/
theorem eval_halvesLeft
    : halvesLeft.IsArithmetic
      ∧ (halvesLeft.eval thirds).outcome (.ofSeed 0)
        = (.ok (.number ⟨1, 6, by decide, by decide, by decide, by decide⟩), .ofSeed 0)
      ∧ halvesLeft.rational? thirds.rational? = some (1 / 6) := by
  have arithmetic : halvesLeft.IsArithmetic := ⟨trivial, trivial, trivial⟩
  have bound : ∀ name ∈ halvesLeft.freeNames, ∃ r, thirds.value? name = some (.number r) := by
    intro name member
    obtain rfl : name = "x" := List.mem_singleton.mp member
    exact ⟨_, rfl⟩
  have evaluated : (halvesLeft.eval thirds).outcome (.ofSeed 0)
      = (.ok (.number ⟨1, 6, by decide, by decide, by decide, by decide⟩), .ofSeed 0) := rfl
  have stands := (eval_exact arithmetic bound (.ofSeed 0)).1 _ _ evaluated
  refine ⟨arithmetic, evaluated, stands.trans ?_⟩
  norm_num [Rational.toRat]

end Expr

end QuizVariants
