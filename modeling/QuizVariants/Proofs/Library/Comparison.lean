import QuizVariants.Library.Numeric
import QuizVariants.Expr.Operation
import QuizVariants.Proofs.Decimal.Order
import QuizVariants.Proofs.Except
import QuizVariants.Proofs.Rational.Canonical

/-! Comparisons of values.
Comparison operators, the conditional of the library and loose equality are three readings of one
order. Main statement: a conditional decides like the operator that its symbol stands for, and two
numbers are in exactly one of the three orders.
-/

namespace QuizVariants

namespace Value

/-- Whether a value is the float that is not a number. -/
def IsNan : Value → Prop
  | .float x => x.isNaN
  | _ => False

-----------------------------------------------------------------------------------------
-- The order of numbers
-----------------------------------------------------------------------------------------

/-- The order of two values, with which loose equality agrees. -/
structure Ordered (a b : Value) (order : Ordering) : Prop where
  order? : a.order? b = .ok (some order)
  looselyEquals : a.looselyEquals b = (order == .eq)

/-- A fraction is rounded to a number. -/
theorem toFloat_ne_notANumber (r : Rational)
    : r.toFloat.toModel.unpack ≠ .notANumber := by
  have bound : (wordBound : ℤ) = 2 ^ 63 := by decide
  obtain ⟨low, high⟩ := r.num_fits
  obtain ⟨_, small⟩ := r.den_fits
  exact Decimal.ratio_ne_notANumber (by omega) r.den_pos (by omega)

/-- Floats that are numbers are ordered. -/
theorem exists_order_floats {x y : Float} (hx : x.toModel.unpack ≠ .notANumber)
    (hy : y.toModel.unpack ≠ .notANumber)
    : ∃ order, floatOrder? x y = some order ∧ (x == y) = (order == .eq) := by
  obtain ⟨order, same⟩ := Decimal.exists_compare hx hy
  have equal : (x == y) = (x.toModel.unpack.compare y.toModel.unpack == some .eq) := rfl
  refine ⟨order, (Decimal.floatOrder?_eq x y).trans same, ?_⟩
  rw [equal, same]
  cases order <;> rfl

/-- Fractions are ordered, and equal in this order only if they are the same. -/
theorem exists_order_fractions (a b : Rational) : Ordered (.number a) (.number b) (a.order b) := by
  refine ⟨rfl, ?_⟩
  have order : a.order b = compare a.toRat b.toRat := Rational.compare_eq a b
  have equal : (a == b) = decide (a = b) := rfl
  change (a == b) = _
  rw [equal, order]
  by_cases same : a = b
  · rw [decide_eq_true same, same, compare_eq_iff_eq.mpr rfl]
    rfl
  · rw [decide_eq_false same]
    have apart : compare a.toRat b.toRat ≠ .eq :=
      fun h => same (Rational.toRat_injective (compare_eq_iff_eq.mp h))
    cases outcome : compare a.toRat b.toRat with
    | eq => exact absurd outcome apart
    | lt => rfl
    | gt => rfl

theorem unpack_ne_notANumber {x : Float} (h : ¬ (Value.float x).IsNan)
    : x.toModel.unpack ≠ .notANumber := by
  intro unpacked
  apply h
  change x.toModel.unpack.isNaN = true
  rw [unpacked]
  rfl

/-- Values that are compared as two floats other than the one that is not a number are ordered. -/
theorem exists_order_of_floats {a b : Value} {x y : Float} (hx : x.toModel.unpack ≠ .notANumber)
    (hy : y.toModel.unpack ≠ .notANumber) (order? : a.order? b = .ok (floatOrder? x y))
    (equal : a.looselyEquals b = (x == y))
    : ∃ order, Ordered a b order := by
  obtain ⟨order, found, same⟩ := exists_order_floats hx hy
  exact ⟨order, order?.trans (congrArg Except.ok found), equal.trans same⟩

/-- Numbers are ordered, by cases on their kinds. -/
theorem exists_order {a b : Value} (ha : a.isNumeric) (hb : b.isNumeric) (na : ¬ a.IsNan)
    (nb : ¬ b.IsNan)
    : ∃ order, Ordered a b order := by
  cases a with
  | number p =>
      cases b with
      | number q => exact ⟨_, exists_order_fractions p q⟩
      | float y =>
          exact exists_order_of_floats (toFloat_ne_notANumber p) (unpack_ne_notANumber nb) rfl rfl
      | _ => exact nomatch hb
  | float x =>
      cases b with
      | number q =>
          exact exists_order_of_floats (unpack_ne_notANumber na) (toFloat_ne_notANumber q) rfl rfl
      | float y =>
          exact exists_order_of_floats (unpack_ne_notANumber na) (unpack_ne_notANumber nb) rfl rfl
      | _ => exact nomatch hb
  | _ => exact nomatch ha

/-- An order is only missing where one of the values is not a number. -/
theorem order?_ne_none {a b : Value} (na : ¬ a.IsNan) (nb : ¬ b.IsNan)
    : a.order? b ≠ .ok none := by
  by_cases numbers : a.isNumeric ∧ b.isNumeric
  · obtain ⟨order, ordered⟩ := exists_order numbers.1 numbers.2 na nb
    rw [ordered.order?]
    exact fun h => nomatch h
  · cases a <;> cases b <;> first | exact absurd ⟨rfl, rfl⟩ numbers | exact fun h => nomatch h

end Value

namespace Library

-----------------------------------------------------------------------------------------
-- Operators and tests
-----------------------------------------------------------------------------------------

/-- The symbol under which a conditional knows a comparison; it does not know inequality. -/
def testSymbol? : ComparisonOp → Option String
  | .eq => some "="
  | .ne => none
  | op => some op.symbol

/-- A test compares like the operator that its symbol stands for, by cases on the operator. -/
theorem compare_eq_testHolds {op : ComparisonOp} {symbol : String}
    (known : testSymbol? op = some symbol) {a b : Value} (na : ¬ a.IsNan) (nb : ¬ b.IsNan)
    : Operation.compare op a b = (testHolds (some symbol) a b).map .bool := by
  -- The operator lets a missing order fail, the test reports it; there is none between numbers.
  have ordered (test : Ordering → Bool)
      (asked : ∀ order, Operation.asksFor op (some order) = test order)
      : (a.order? b).map (fun order? => Value.bool (Operation.asksFor op order?))
        = ((a.order b).map test).map .bool := by
    have some := Value.order?_ne_none na nb
    cases outcome : a.order? b with
    | error fault =>
        simp only [Value.order, outcome]
        rfl
    | ok order? =>
        cases order? with
        | none => exact absurd outcome some
        | some order =>
            simp only [Value.order, outcome]
            exact congrArg (fun holds => Except.ok (Value.bool holds)) (asked order)
  cases op with
  | ne => exact nomatch known
  | eq =>
      obtain rfl := Option.some.inj known
      rfl
  | lt =>
      obtain rfl := Option.some.inj known
      exact ordered (· == .lt) (fun _ => rfl)
  | le =>
      obtain rfl := Option.some.inj known
      exact ordered (· != .gt) (fun _ => rfl)
  | gt =>
      obtain rfl := Option.some.inj known
      exact ordered (· == .gt) (fun _ => rfl)
  | ge =>
      obtain rfl := Option.some.inj known
      exact ordered (· != .lt) (fun _ => rfl)

/-- An operator compares two ordered values by their order. -/
theorem compare_of_ordered {a b : Value} {order : Ordering} (h : Value.Ordered a b order)
    (op : ComparisonOp)
    : Operation.compare op a b = .ok (.bool (Operation.asksFor op (some order))) := by
  have ordered (op : ComparisonOp)
      : (a.order? b).map (fun order? => Value.bool (Operation.asksFor op order?))
        = .ok (.bool (Operation.asksFor op (some order))) := by
    rw [h.order?]
    rfl
  cases op with
  | eq => exact congrArg (fun equal => Except.ok (Value.bool equal)) h.looselyEquals
  | ne => exact congrArg (fun equal => Except.ok (Value.bool (!equal))) h.looselyEquals
  | lt => exact ordered .lt
  | le => exact ordered .le
  | gt => exact ordered .gt
  | ge => exact ordered .ge

/-- A conditional chooses by its test. -/
theorem ifelse_eq (a b : Value) (symbol : String) (whenTrue whenFalse : Value)
    : ifelse ⟨[a, b, .string symbol, whenTrue, whenFalse], []⟩
      = (testHolds (some symbol) a b).map (fun holds => if holds then whenTrue else whenFalse) := by
  change testHolds (some symbol) a b >>= _ = _
  cases testHolds (some symbol) a b <;> rfl

/-- A conditional decides like the operator that its symbol stands for, and fails with it; two
numbers are in exactly one of the three orders, and the other two operators join two of them. -/
theorem ifelse_compares (algebra : HostAlgebra) {a b : Value} (na : ¬ a.IsNan) (nb : ¬ b.IsNan)
    : (∀ op symbol, testSymbol? op = some symbol → ∀ whenTrue whenFalse,
        let comparison := Operation.binary algebra (.comparison op) a b
        let answer := ifelse ⟨[a, b, .string symbol, whenTrue, whenFalse], []⟩
        (∀ result, comparison = .ok result → result = .bool true ∨ result = .bool false)
          ∧ (comparison = .ok (.bool true) → answer = .ok whenTrue)
          ∧ (comparison = .ok (.bool false) → answer = .ok whenFalse)
          ∧ ∀ error, answer = .error error ↔ comparison = .error error)
      ∧ (a.isNumeric → b.isNumeric → ∃ less equal greater : Bool,
        [less, equal, greater].count true = 1
          ∧ Operation.binary algebra (.comparison .lt) a b = .ok (.bool less)
          ∧ Operation.binary algebra (.comparison .eq) a b = .ok (.bool equal)
          ∧ Operation.binary algebra (.comparison .gt) a b = .ok (.bool greater)
          ∧ Operation.binary algebra (.comparison .le) a b = .ok (.bool (less || equal))
          ∧ Operation.binary algebra (.comparison .ge) a b = .ok (.bool (greater || equal))) := by
  refine ⟨fun op symbol known whenTrue whenFalse => ?_, fun ha hb => ?_⟩
  · intro comparison answer
    have compared : comparison = (testHolds (some symbol) a b).map .bool :=
      compare_eq_testHolds known na nb
    have chosen : answer = _ := ifelse_eq a b symbol whenTrue whenFalse
    rw [compared, chosen]
    cases testHolds (some symbol) a b with
    | error fault => simp [Except.map]
    | ok holds => cases holds <;> simp [Except.map]
  · obtain ⟨order, ordered⟩ := Value.exists_order ha hb na nb
    have compared (op : ComparisonOp) := compare_of_ordered ordered op
    refine ⟨order == .lt, order == .eq, order == .gt, by cases order <;> rfl, compared .lt,
      compared .eq, compared .gt, (compared .le).trans ?_, (compared .ge).trans ?_⟩
    · cases order <;> rfl
    · cases order <;> rfl

/-- The case of a fraction and a float. -/
theorem ifelse_two_below_half
    : ¬ (Value.integer 2).IsNan
      ∧ ¬ (Value.float 2.5).IsNan
      ∧ testSymbol? .le = some "<="
      ∧ ifelse ⟨[.integer 2, .float 2.5, .string "<=", .string "yes", .string "no"], []⟩
        = .ok (.string "yes") := by
  have exact : ¬ (Value.integer 2).IsNan := id
  have float : ¬ (Value.float 2.5).IsNan := by
    change ¬ (2.5 : Float).isNaN = true
    decide +kernel
  have less : Value.floatOrder? (Rational.integer 2).toFloat 2.5 = some .lt := by decide +kernel
  have comparison : Operation.binary (.exact []) (.comparison .le) (.integer 2) (.float 2.5)
      = .ok (.bool true) :=
    congrArg (fun order? => Except.ok (Value.bool (Operation.asksFor .le order?))) less
  refine ⟨exact, float, rfl, ?_⟩
  exact ((ifelse_compares (.exact []) exact float).1 .le "<=" rfl _ _).2.1 comparison

end Library

end QuizVariants
