import QuizVariants.Expr.Operation
import QuizVariants.Proofs.Machine.Roots

/-! Operations on a machine.
Arithmetic takes all operators, and so does the comparison of values; neither is prepared for the
operators of the other one.
-/

namespace QuizVariants.Machine

-----------------------------------------------------------------------------------------
-- Symbols
-----------------------------------------------------------------------------------------

/-- A fraction; its sign stands in front of it. -/
def rationalMarkup (r : Rational) : Result String :=
  if r.isInteger then return Algebra.integerMarkup r.num
  else if r.isNegative then do
    let size ← pair (-r.num)
    return "- " ++ Algebra.fraction (Algebra.integerMarkup size) (Algebra.integerMarkup r.den)
  else return Algebra.fraction (Algebra.integerMarkup r.num) (Algebra.integerMarkup r.den)

def asSymbolic (value : Value) : Result Symbolic :=
  match value with
  | .symbolic s => return s
  | .number r => do return ⟨← rationalMarkup r, if r.isNegative then .sum else .atom⟩
  | .float x => return ⟨Algebra.floatMarkup x, .atom⟩
  | value => throw (.error (.typeMismatch "number or symbol" value.typeName))

def combine (op : BinaryOp) (left right : Value) : Result Value :=
  match Algebra.trivial? op left right with
  | some value => return value
  | none => do
    let l ← asSymbolic left
    let r ← asSymbolic right
    return .symbolic (← ofExcept (Algebra.combineMarkup op (Algebra.isMinusOne left) l r))

def negate (value : Value) : Result Value := do
  return .symbolic ⟨"- " ++ Algebra.wrap (← asSymbolic value) .product, .sum⟩

theorem rationalMarkup_eq (r : Rational) : rationalMarkup r = .ok (Algebra.rationalMarkup r) := by
  have size : FitsPair (-r.num) := (inPair_of_fits r.num_fits).neg.fits
  rw [rationalMarkup, Algebra.rationalMarkup, pair_of_fits size]
  split
  · rfl
  · split <;> rfl

theorem asSymbolic_eq (value : Value)
    : asSymbolic value = ofExcept (Algebra.asSymbolic value) := by
  cases value with
  | number r =>
      rw [asSymbolic, rationalMarkup_eq, Algebra.asSymbolic, Algebra.markup]
      rfl
  | float x =>
      rw [asSymbolic, Algebra.asSymbolic, Algebra.markup]
      rfl
  | _ => rfl

theorem combine_eq (op : BinaryOp) (left right : Value)
    : combine op left right = ofExcept (Algebra.combine op left right) := by
  rw [combine, Algebra.combine]
  cases Algebra.trivial? op left right with
  | some value => rfl
  | none =>
      simp only [asSymbolic_eq, ofExcept_bind]
      rfl

theorem negate_eq (value : Value) : negate value = ofExcept (Algebra.negate value) := by
  rw [negate, Algebra.negate, asSymbolic_eq, ofExcept_bind]
  rfl

/-- The steps in which a machine makes the operations of an algebra; they give what it gives. -/
structure SymbolSteps (algebra : HostAlgebra) where
  combine : BinaryOp → Value → Value → Result Value
  negate : Value → Result Value
  combine_eq : ∀ op left right, combine op left right = ofExcept (algebra.combine op left right)
  negate_eq : ∀ value, negate value = ofExcept (algebra.negate value)

/-- The built-in algebra is made of checked steps. -/
def SymbolSteps.exact (symbols : List String) : SymbolSteps (.exact symbols) where
  combine := Machine.combine
  negate := Machine.negate
  combine_eq := Machine.combine_eq
  negate_eq := Machine.negate_eq

/-- Each operation of the algebra of a host is one step, as its functions are. -/
def SymbolSteps.host (algebra : HostAlgebra) : SymbolSteps algebra where
  combine op left right := ofExcept (algebra.combine op left right)
  negate value := ofExcept (algebra.negate value)
  combine_eq _ _ _ := rfl
  negate_eq _ := rfl

-----------------------------------------------------------------------------------------
-- Signs, arithmetic and comparisons
-----------------------------------------------------------------------------------------

variable {algebra : HostAlgebra} (symbols : SymbolSteps algebra)

/-- The operand of a sign. -/
def unary (op : UnaryOp) (value : Value) : Result Value :=
  match op, value with
  | .pos, .number r => return .number r
  | .pos, .float x => return .float x
  | .pos, .symbolic s => return .symbolic s
  | .neg, .number r => do return .number (← neg r)
  | .neg, .float x => return .float (-x)
  | .neg, .symbolic s => symbols.negate (.symbolic s)
  | _, value => throw (.error (.typeMismatch "number" value.typeName))

/-- Arithmetic on floats. -/
def float (op : BinaryOp) (x y : Float) : Result Value :=
  match op with
  | .arithmetic op => ofExcept (Operation.float op x y)
  | .comparison _ => impossible

/-- The remainder of a fraction, which has the sign of the divisor. -/
def modulo (a b : Rational) : Result Rational := do
  if b = 0 then throw (.error (.arithmetic .divisionByZero))
  else
    let whole ← floor (← div a b)
    sub a (← mul b (← lowest whole 1))

/-- Arithmetic on fractions. -/
def exact (op : BinaryOp) (a b : Rational) : Result Value :=
  match op with
  | .arithmetic .add => do return .number (← add a b)
  | .arithmetic .sub => do return .number (← sub a b)
  | .arithmetic .mul => do return .number (← mul a b)
  | .arithmetic .div => do return .number (← div a b)
  | .arithmetic .rem => do return .number (← modulo a b)
  | .arithmetic .pow => do
    if b.isInteger then return .number (← pow a b.num)
    else float op a.toFloat b.toFloat
  | .comparison _ => impossible

/-- The order of two values; floats and strings have theirs without a step that could fail. -/
def order? (left right : Value) : Result (Option Ordering) :=
  match left, right with
  | .number a, .number b => do return some (← order a b)
  | left, right => ofExcept (left.order? right)

/-- Whether two values are in the order that an operator asks for. -/
def compare (op : BinaryOp) (left right : Value) : Result Value := do
  match ← order? left right with
  | none => return .bool false
  | some order =>
    match op with
    | .comparison .lt => return .bool (order == .lt)
    | .comparison .le => return .bool (order != .gt)
    | .comparison .gt => return .bool (order == .gt)
    | .comparison .ge => return .bool (order != .lt)
    | _ => impossible

/-- Arithmetic on values. -/
def calculate (op : BinaryOp) (left right : Value) : Result Value :=
  let unsupported : Result Value :=
    throw (.error (.operands (.unsupported op.symbol left.typeName right.typeName)))
  match left, right with
  | .symbolic _, _ => symbols.combine op left right
  | _, .symbolic _ => symbols.combine op left right
  | .number a, .number b => exact op a b
  | .number a, .float y => float op a.toFloat y
  | .float x, .number b => float op x b.toFloat
  | .float x, .float y => float op x y
  | .string a, .string b => if op = .arithmetic .add then return .string (a ++ b) else unsupported
  | .list as, .list bs => if op = .arithmetic .add then return .list (as ++ bs) else unsupported
  | _, _ => unsupported

/-- Comparisons are taken out first; whatever operator is left over is one of arithmetic. -/
def binary (op : BinaryOp) (left right : Value) : Result Value :=
  match op with
  | .comparison .eq => return .bool (left.looselyEquals right)
  | .comparison .ne => return .bool (!left.looselyEquals right)
  | .comparison .lt => compare op left right
  | .comparison .le => compare op left right
  | .comparison .gt => compare op left right
  | .comparison .ge => compare op left right
  | op => calculate symbols op left right

theorem map_number_eq {steps : Result Rational} {result : Except Rational.Fault Rational}
    (h : steps = ofExcept (exactly result))
    : (do return Value.number (← steps)) = ofExcept ((exactly result).map .number) := by
  rw [h]
  cases result <;> rfl

theorem unary_eq (op : UnaryOp) (value : Value)
    : unary symbols op value = ofExcept (Operation.unary algebra op value) := by
  cases op with
  | pos => cases value <;> rfl
  | neg =>
      cases value with
      | number r => exact map_number_eq (neg_eq r)
      | symbolic s => exact symbols.negate_eq (.symbolic s)
      | _ => rfl

theorem lowest_one {n : Int} (fits : Fits n) : lowest n 1 = .ok (.integer n fits) :=
  (dif_pos ⟨fits, fits_one⟩).trans (dif_pos ⟨by decide, Nat.coprime_one_right _⟩)

theorem modulo_eq (a b : Rational)
    : modulo a b = ofExcept (exactly (Operation.remainder a b)) := by
  rw [modulo, Operation.remainder, div_eq]
  by_cases zero : b = 0
  · have undefined : a.div 0 = .error .divisionByZero := by
      rw [Rational.div, Rational.ofRatio]
      exact dif_pos (Int.mul_zero _)
    rw [if_pos zero, zero, undefined]
    rfl
  rw [if_neg zero]
  cases a.div b with
  | error fault => rfl
  | ok quotient =>
      rw [ofExcept_exactly_ok, ok_bind, floor_eq, ok_bind, lowest_one quotient.fits_floor, ok_bind,
        mul_eq]
      change _ = ofExcept (exactly (Rational.mul _ _ >>= _))
      cases b.mul (.integer quotient.floor quotient.fits_floor) with
      | error fault => rfl
      | ok product => exact sub_eq a product

theorem exact_eq (op : ArithmeticOp) (a b : Rational)
    : exact (.arithmetic op) a b = ofExcept (Operation.exact op a b) := by
  cases op with
  | add => exact map_number_eq (add_eq a b)
  | sub => exact map_number_eq (sub_eq a b)
  | mul => exact map_number_eq (mul_eq a b)
  | div => exact map_number_eq (div_eq a b)
  | rem => exact map_number_eq (modulo_eq a b)
  | pow =>
      rw [exact, Operation.exact]
      split
      · exact map_number_eq (pow_eq a b.num)
      · rfl

theorem order?_eq (left right : Value)
    : order? left right = ofExcept (left.order? right) := by
  cases left <;> cases right <;> first | rfl | rw [order?, order_eq]; rfl

/-- A comparison is asked for the order of its values alone, so that no case is impossible. -/
theorem compare_eq (op : ComparisonOp) (equal : op ≠ .eq) (unequal : op ≠ .ne) (left right : Value)
    : compare (.comparison op) left right = ofExcept (Operation.compare op left right) := by
  have result : Operation.compare op left right
      = (left.order? right).map (fun order? => .bool (Operation.asksFor op order?)) := by
    cases op with
    | eq => exact absurd rfl equal
    | ne => exact absurd rfl unequal
    | _ => rfl
  rw [compare, order?_eq, result]
  cases left.order? right with
  | error fault => rfl
  | ok order? =>
      cases op with
      | eq => exact absurd rfl equal
      | ne => exact absurd rfl unequal
      | _ => cases order? <;> rfl

/-- Arithmetic keeps to its own operators, by cases on the operands. -/
theorem calculate_eq (op : ArithmeticOp) (left right : Value)
    : calculate symbols (.arithmetic op) left right
      = ofExcept (Operation.arithmetic algebra op left right) := by
  cases left with
  | symbolic s => exact symbols.combine_eq (.arithmetic op) (.symbolic s) right
  | number a =>
      cases right with
      | symbolic s => exact symbols.combine_eq (.arithmetic op) (.number a) (.symbolic s)
      | number b => exact exact_eq op a b
      | _ => rfl
  | float x =>
      cases right with
      | symbolic s => exact symbols.combine_eq (.arithmetic op) (.float x) (.symbolic s)
      | _ => rfl
  | string a =>
      cases right with
      | symbolic s => exact symbols.combine_eq (.arithmetic op) (.string a) (.symbolic s)
      | string b => cases op <;> rfl
      | _ => rfl
  | list as =>
      cases right with
      | symbolic s => exact symbols.combine_eq (.arithmetic op) (.list as) (.symbolic s)
      | list bs => cases op <;> rfl
      | _ => rfl
  | bool b =>
      cases right with
      | symbolic s => exact symbols.combine_eq (.arithmetic op) (.bool b) (.symbolic s)
      | _ => rfl

/-- An operation on two values meets no case that was taken for impossible, by cases on the
operator. -/
theorem binary_eq (op : BinaryOp) (left right : Value)
    : binary symbols op left right = ofExcept (Operation.binary algebra op left right) := by
  cases op with
  | arithmetic op => exact calculate_eq symbols op left right
  | comparison op =>
      cases op with
      | eq => rfl
      | ne => rfl
      | lt => exact compare_eq .lt nofun nofun left right
      | le => exact compare_eq .le nofun nofun left right
      | gt => exact compare_eq .gt nofun nofun left right
      | ge => exact compare_eq .ge nofun nofun left right

-----------------------------------------------------------------------------------------
-- Items of sequences
-----------------------------------------------------------------------------------------

/-- A place from the start of a sequence; a negative one counts from the end. -/
def fromStart (index : Int) (items : List α) : Result Int := do
  if index < 0 then word (index + (← lengthOf items)) else return index

def position (index : Int) (items : List α) : Result Nat := do
  let place ← fromStart index items
  if 0 ≤ place ∧ place.toNat < items.length then return place.toNat
  else throw (.error (.indexOutOfBounds index items.length))

def item (index : Int) (items : List α) : Result α := do
  itemAt items (← position index items)

/-- The item of a list or the character of a string at an index. -/
def subscript (target index : Value) : Result Value := do
  let index ← ofExcept index.toInteger
  match target with
  | .list items => item index items
  | .string text => return .string (.singleton (← item index text.toList))
  | target => throw (.error (.typeMismatch "list or string" target.typeName))

/-- The integer of a value is a word. -/
theorem fits_toInteger {value : Value} {index : Int} (h : value.toInteger = .ok index)
    : Fits index := by
  cases value with
  | number r =>
      simp only [Value.toInteger] at h
      split at h
      · exact Except.ok.inj h ▸ r.num_fits
      · cases h
  | float x =>
      simp only [Value.toInteger] at h
      split at h
      · next n found =>
        have size : n.natAbs < wordBound.natAbs :=
          of_decide_eq_true (Option.filter_eq_some_iff.mp found).2
        have bound : (wordBound.natAbs : Int) = wordBound := rfl
        rw [← Except.ok.inj h, Fits]
        omega
      · cases h
  | _ => cases h

/-- A place counted from the end of a sequence is a word, as an index and a length are. -/
theorem fromStart_eq {index : Int} (fits : Fits index) (items : List α)
    : fromStart index items = .ok (if index < 0 then index + items.length else index)
      ∨ fromStart index items = .error .exhausted := by
  rw [fromStart, lengthOf]
  split
  · next negative =>
    split
    · next memory =>
      have sum : Fits (index + items.length) := by
        simp only [Fits] at fits ⊢
        omega
      left
      exact word_of_fits sum
    · exact Or.inr rfl
  · exact Or.inl rfl

/-- The item at the place that an index stands for is there. -/
theorem KeepsTo.item {index : Int} (fits : Fits index) (items : List α)
    : KeepsTo (item index items)
        (do return items.get (← Operation.position index items.length)) := by
  rcases fromStart_eq fits items with found | ended
  · left
    rw [Machine.item, position, found, ok_bind, Operation.position]
    by_cases inside : 0 ≤ (if index < 0 then index + items.length else index)
        ∧ (if index < 0 then index + items.length else index).toNat < items.length
    · rw [if_pos inside, dif_pos inside]
      exact itemAt_of_getElem? (List.getElem?_eq_getElem inside.2)
    · rw [if_neg inside, dif_neg inside]
      rfl
  · right
    rw [Machine.item, position, ended]
    rfl

theorem KeepsTo.subscript (target index : Value)
    : KeepsTo (subscript target index) (Operation.subscript target index) := by
  refine (KeepsTo.ofExcept index.toInteger).bind (fun place found => ?_)
  have fits := fits_toInteger found
  cases target with
  | list items => exact KeepsTo.item fits items
  | string text =>
      have character := (KeepsTo.item fits text.toList).bind
        (fun c _ => KeepsTo.ok (Value.string (.singleton c)))
      rw [bind_assoc] at character
      exact character
  | _ => exact .error _

end QuizVariants.Machine
