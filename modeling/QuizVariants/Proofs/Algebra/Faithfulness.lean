import QuizVariants.Proofs.Algebra.Reading
import QuizVariants.Proofs.Expr.Exactness

/-! Faithful markup.
The markup of an expression over free symbols denotes the same rational function as the expression,
so that two expressions with the same markup are equal wherever both are defined. The exception is
a product whose last factor is led by a minus: it reads as a difference.
-/

namespace QuizVariants

open QuizVariants.Decimal
open QuizVariants.Rational (toRat_integer toRat_one toRat_eq_zero_iff)
open QuizVariants.Text

namespace Algebra

variable {valueOf : String → ℚ}

-----------------------------------------------------------------------------------------
-- Markup of symbolic results
-----------------------------------------------------------------------------------------

/-- The kind of markup that a strength promises. -/
def partOf : Strength → Part
  | .sum => .sum
  | .product => .term
  | .power => .power
  | .atom => .atom

/-- A value stands for a number: it is that number, or markup that denotes it. -/
inductive StandsFor (valueOf : String → ℚ) : Value → ℚ → Prop where
  | number (q : Rational) : StandsFor valueOf (.number q) q.toRat
  | symbolic {s : Symbolic} {x : ℚ}
    (denotes : Denotes valueOf (partOf s.strength) s.markup.toList x)
    : StandsFor valueOf (.symbolic s) x

/-- A product that would be read as a difference: its last factor is a product led by a minus. -/
def LooksLikeDifference (left right : Value) : Prop :=
  trivial? (.arithmetic .mul) left right = none ∧ isMinusOne left = false
    ∧ ∃ s, right = .symbolic s ∧ s.strength = .product ∧ s.markup.toList.head? = some '-'

theorem Denotes.toSum {strength : Strength} {text : List Char} {x : ℚ}
    (h : Denotes valueOf (partOf strength) text x)
    : Denotes valueOf .sum text x := by
  cases strength with
  | sum => exact h
  | product => exact h.term
  | power => exact h.factor.product.term
  | atom => exact h.base.factor.product.term

-----------------------------------------------------------------------------------------
-- Operands of markup
-----------------------------------------------------------------------------------------

theorem toList_fraction (top bottom : String)
    : (fraction top bottom).toList
      = overMark ++ (top.toList ++ (underMark ++ (bottom.toList ++ ['}']))) := by
  simp [fraction, braced, overMark, underMark]

/-- Natural numbers are written by their digits. -/
theorem denotes_natural {n : Int} (natural : 0 ≤ n)
    : Denotes valueOf .atom (integerMarkup n).toList n := by
  obtain ⟨n, rfl⟩ := Int.eq_ofNat_of_zero_le natural
  have text : (integerMarkup n).toList = digitsOf n := by
    simp [integerMarkup, Rational.integerText, natural]
  rw [text]
  exact .natural n

theorem denotes_negative {n : Int} (negative : n < 0)
    : Denotes valueOf .sum (integerMarkup n).toList n := by
  have text : (integerMarkup n).toList = '-' :: digitsOf n.natAbs := by
    simp [integerMarkup, Rational.integerText, negative]
  have size : (n : ℚ) = -(n.natAbs : ℚ) := by
    rw [Nat.cast_natAbs, abs_of_neg negative, Int.cast_neg, neg_neg]
  rw [text, size]
  exact .negative n.natAbs

/-- A fraction as an operand of markup denotes itself; a negative one is a sum, since its sign
stands in front of it. -/
theorem denotes_number (q : Rational)
    : Denotes valueOf (partOf (if q.isNegative then .sum else .atom)) (markup (.number q)).toList
        q.toRat := by
  have lower : Denotes valueOf .sum (integerMarkup q.den).toList (q.den : Int) :=
    (denotes_natural (Int.natCast_nonneg _)).base.factor.product.term
  rw [Rational.isNegative, markup, rationalMarkup]
  by_cases negative : q.num < 0 <;> by_cases whole : q.isInteger = true
  · rw [if_pos whole, Rational.toRat_of_isInteger whole, decide_eq_true negative]
    exact denotes_negative negative
  · have upper : Denotes valueOf .sum (integerMarkup (-q.num)).toList (-q.num : Int) :=
      (denotes_natural (by omega)).base.factor.product.term
    have opposite := (Denotes.fraction upper lower).base.factor.product.opposite.term
    rw [← toList_fraction, Int.cast_neg, neg_div, neg_neg] at opposite
    rw [if_neg whole, Rational.isNegative, decide_eq_true negative]
    simpa [Rational.toRat, partOf] using opposite
  · rw [if_pos whole, Rational.toRat_of_isInteger whole, decide_eq_false negative]
    exact denotes_natural (by omega)
  · have upper : Denotes valueOf .sum (integerMarkup q.num).toList q.num :=
      (denotes_natural (by omega)).base.factor.product.term
    have ratio := Denotes.fraction upper lower
    rw [← toList_fraction] at ratio
    rw [if_neg whole, Rational.isNegative, decide_eq_false negative]
    exact ratio

/-- A value that stands for a number denotes it as an operand of markup. -/
theorem StandsFor.denotes {value : Value} {x : ℚ} {s : Symbolic} (h : StandsFor valueOf value x)
    (operand : asSymbolic value = .ok s)
    : Denotes valueOf (partOf s.strength) s.markup.toList x := by
  cases h with
  | number q =>
      obtain rfl := Except.ok.inj operand
      exact denotes_number q
  | symbolic denotes =>
      obtain rfl := Except.ok.inj operand
      exact denotes

/-- Parentheses make an atom of a sum. -/
theorem denotes_parentheses {s : Symbolic} {x : ℚ}
    (h : Denotes valueOf (partOf s.strength) s.markup.toList x)
    : Denotes valueOf .atom ("\\left(" ++ s.markup ++ "\\right)").toList x := by
  simpa [groupMark, groupEnd] using Denotes.group h.toSum

/-- A factor of markup is a term: a sum in parentheses, or anything tighter as it stands. -/
theorem denotes_wrap_product {s : Symbolic} {x : ℚ}
    (h : Denotes valueOf (partOf s.strength) s.markup.toList x)
    : Denotes valueOf .term (wrap s .product).toList x := by
  have parentheses := (denotes_parentheses h).base.factor.product
  obtain ⟨text, strength⟩ := s
  cases strength with
  | sum => exact parentheses
  | product => exact h
  | power => exact h.factor.product
  | atom => exact h.base.factor.product

/-- A term is a product, unless a minus leads it. -/
theorem Denotes.product_of_plain {text : List Char} {x : ℚ} (h : Denotes valueOf .term text x)
    (plain : text.head? ≠ some '-')
    : Denotes valueOf .product text x := by
  cases h with
  | product product => exact product
  | opposite term => exact absurd rfl plain

/-- A factor of markup is a product, unless it is one already and a minus leads it. -/
theorem denotes_wrap_product_of_plain {s : Symbolic} {x : ℚ}
    (h : Denotes valueOf (partOf s.strength) s.markup.toList x)
    (plain : s.strength = .product → s.markup.toList.head? ≠ some '-')
    : Denotes valueOf .product (wrap s .product).toList x := by
  have parentheses := (denotes_parentheses h).base.factor
  obtain ⟨text, strength⟩ := s
  cases strength with
  | sum => exact parentheses
  | product => exact h.product_of_plain (plain rfl)
  | power => exact h.factor
  | atom => exact h.base.factor

theorem denotes_wrap_atom {s : Symbolic} {x : ℚ}
    (h : Denotes valueOf (partOf s.strength) s.markup.toList x)
    : Denotes valueOf .atom (wrap s .atom).toList x := by
  have parentheses := denotes_parentheses h
  obtain ⟨text, strength⟩ := s
  cases strength with
  | sum | product | power => exact parentheses
  | atom => exact h

-----------------------------------------------------------------------------------------
-- Operations between operands of markup
-----------------------------------------------------------------------------------------

/-- A sum that a minus leads is subtracted without that minus and the blank behind it; by induction
on the sum, which goes on with one term after the other. -/
theorem Denotes.exists_subtrahend {first rest : List Char} {x y : ℚ}
    (left : Denotes valueOf .sum first x) (right : Denotes valueOf .sum ('-' :: rest) y)
    : ∃ c body, (rest = c :: body ∨ rest = ' ' :: c :: body) ∧ isBlank c = false
      ∧ Denotes valueOf .sum (first ++ ' ' :: '-' :: ' ' :: c :: body) (x + y) := by
  generalize kind : Part.sum = part at right
  generalize same : '-' :: rest = text at right
  induction right generalizing rest with
  | @term text y term =>
      cases term with
      | product product =>
          obtain ⟨c, more, rfl, apart, _⟩ := product.exists_head ⟨nofun, nofun⟩
          exact absurd (List.cons.inj same).1.symm apart
      | opposite term =>
          obtain ⟨c, body, rfl, shows⟩ := term.exists_shown
          refine ⟨c, body, .inr (List.cons.inj same).2, shows, ?_⟩
          rw [← sub_eq_add_neg]
          exact .sub left term
  | negative n =>
      have natural : Denotes valueOf .term (digitsOf n) n :=
        .product (.factor (.base (.natural n)))
      obtain ⟨c, body, digits, shows⟩ := natural.exists_shown
      rw [digits] at natural same
      refine ⟨c, body, .inl (List.cons.inj same).2, shows, ?_⟩
      rw [← sub_eq_add_neg]
      exact .sub left natural
  | @add _ second _ _ sum term ih =>
      obtain ⟨_, before, rfl, _⟩ := sum.exists_shown
      obtain ⟨rfl, rfl⟩ := List.cons.inj same
      obtain ⟨c, body, start, shows, difference⟩ := ih kind rfl
      refine ⟨c, body ++ ' ' :: '+' :: ' ' :: second, ?_, shows, ?_⟩
      · rcases start with rfl | rfl
        · exact .inl rfl
        · exact .inr rfl
      · rw [← add_assoc]
        simpa only [List.append_assoc, List.cons_append] using Denotes.add difference term
  | @sub _ second _ _ sum term ih =>
      obtain ⟨_, before, rfl, _⟩ := sum.exists_shown
      obtain ⟨rfl, rfl⟩ := List.cons.inj same
      obtain ⟨c, body, start, shows, difference⟩ := ih kind rfl
      refine ⟨c, body ++ ' ' :: '-' :: ' ' :: second, ?_, shows, ?_⟩
      · rcases start with rfl | rfl
        · exact .inl rfl
        · exact .inr rfl
      · rw [← add_sub_assoc]
        simpa only [List.append_assoc, List.cons_append] using Denotes.sub difference term
  | _ => exact nomatch kind

/-- Sums are written as sums, or as differences where a minus leads the second operand. -/
theorem denotes_sumMarkup {left right : Symbolic} {x y : ℚ}
    (hleft : Denotes valueOf .sum left.markup.toList x)
    (hright : Denotes valueOf .sum right.markup.toList y)
    : Denotes valueOf .sum (sumMarkup left right).toList (x + y) := by
  unfold sumMarkup
  split
  · next rest minus =>
    rw [minus] at hright
    obtain ⟨c, body, start, shows, difference⟩ := hleft.exists_subtrahend hright
    have trimmed : trimLeft rest = c :: body := by
      rcases start with rfl | rfl
      · exact trimLeft_cons_of_not_isBlank shows
      · rw [trimLeft_cons_of_isBlank (by decide), trimLeft_cons_of_not_isBlank shows]
    rw [trimmed]
    simpa using difference
  · next plain =>
    have apart : right.markup.toList.head? ≠ some '-' := by
      intro minus
      obtain ⟨rest, same⟩ := List.head?_eq_some_iff.mp minus
      exact plain rest same
    simpa using hleft.addSum hright apart

/-- The markup of an operation denotes its result, except for a product whose second factor is led
by a minus. -/
theorem denotes_combineMarkup {op : ArithmeticOp} {negating : Bool} {left right s : Symbolic}
    {x y z : ℚ} (hleft : Denotes valueOf (partOf left.strength) left.markup.toList x)
    (hright : Denotes valueOf (partOf right.strength) right.markup.toList y)
    (combined : combineMarkup (.arithmetic op) negating left right = .ok s)
    (defined : op.rational? x y = some z) (opposite : negating = true → x = -1)
    (plain : op = .mul → negating = false → right.strength = .product →
      right.markup.toList.head? ≠ some '-')
    : Denotes valueOf (partOf s.strength) s.markup.toList z := by
  cases op with
  | add =>
      obtain rfl := Except.ok.inj combined
      obtain rfl := Option.some.inj defined
      exact denotes_sumMarkup hleft.toSum hright.toSum
  | sub =>
      obtain rfl := Except.ok.inj combined
      obtain rfl := Option.some.inj defined
      simpa [partOf] using Denotes.sub hleft.toSum (denotes_wrap_product hright)
  | mul =>
      obtain rfl := Option.some.inj defined
      cases negating with
      | true =>
          obtain rfl := Except.ok.inj combined
          rw [opposite rfl, neg_one_mul]
          simpa [partOf] using Denotes.opposite (denotes_wrap_product hright)
      | false =>
          obtain rfl := Except.ok.inj combined
          have factor := denotes_wrap_product_of_plain hright (plain rfl rfl)
          simpa [partOf] using (denotes_wrap_product hleft).termMul factor
  | div =>
      obtain rfl := Except.ok.inj combined
      rw [ArithmeticOp.rational?] at defined
      split at defined
      · cases defined
      · obtain rfl := Option.some.inj defined
        simpa [partOf, toList_fraction] using Denotes.fraction hleft.toSum hright.toSum
  | rem => cases combined
  | pow =>
      obtain rfl := Except.ok.inj combined
      rw [ArithmeticOp.rational?] at defined
      split at defined
      · next whole =>
        obtain rfl := Option.some.inj defined
        have exponent : Denotes valueOf .sum right.markup.toList (y.num : ℚ) := by
          rw [Rat.den_eq_one_iff y |>.mp whole.1]
          exact hright.toSum
        simpa [partOf, powerMark, braced] using Denotes.power (denotes_wrap_atom hleft) exponent
      · cases defined

theorem StandsFor.eq_zero {value : Value} {x : ℚ} (h : StandsFor valueOf value x)
    (zero : isZero value = true)
    : x = 0 := by
  cases h with
  | number q =>
      obtain rfl : q = 0 := eq_of_beq zero
      exact (toRat_integer 0 (by decide)).trans Int.cast_zero
  | symbolic => exact nomatch zero

theorem StandsFor.eq_one {value : Value} {x : ℚ} (h : StandsFor valueOf value x)
    (one : isOne value = true)
    : x = 1 := by
  cases h with
  | number q =>
      obtain rfl : q = 1 := eq_of_beq one
      exact toRat_one
  | symbolic => exact nomatch one

theorem StandsFor.eq_neg_one {value : Value} {x : ℚ} (h : StandsFor valueOf value x)
    (minusOne : isMinusOne value = true)
    : x = -1 := by
  cases h with
  | number q =>
      obtain rfl : q = .integer (-1) := eq_of_beq minusOne
      exact (toRat_integer (-1) (by decide)).trans (by norm_num)
  | symbolic => exact nomatch minusOne

/-- Operations with a zero or a one leave the other operand, or zero. -/
theorem StandsFor.of_trivial? {op : ArithmeticOp} {left right value : Value} {x y z : ℚ}
    (hleft : StandsFor valueOf left x) (hright : StandsFor valueOf right y)
    (h : trivial? (.arithmetic op) left right = some value) (defined : op.rational? x y = some z)
    : StandsFor valueOf value z := by
  cases op with
  | add =>
      obtain rfl := Option.some.inj defined
      rw [trivial?] at h
      split at h
      · next zero =>
        obtain rfl := Option.some.inj h
        rwa [hleft.eq_zero zero, zero_add]
      · obtain ⟨zero, ⟨⟩⟩ := Option.ite_none_right_eq_some.mp h
        rwa [hright.eq_zero zero, add_zero]
  | sub =>
      obtain rfl := Option.some.inj defined
      obtain ⟨zero, ⟨⟩⟩ := Option.ite_none_right_eq_some.mp h
      rwa [hright.eq_zero zero, sub_zero]
  | mul =>
      obtain rfl := Option.some.inj defined
      rw [trivial?] at h
      split at h
      · next zero =>
        obtain rfl := Option.some.inj h
        have product : x * y = (0 : Rational).toRat := by
          rw [toRat_eq_zero_iff.mpr rfl]
          rcases Bool.or_eq_true_iff.mp zero with zero | zero
          · rw [hleft.eq_zero zero, zero_mul]
          · rw [hright.eq_zero zero, mul_zero]
        rw [product]
        exact .number 0
      · split at h
        · next one =>
          obtain rfl := Option.some.inj h
          rwa [hleft.eq_one one, one_mul]
        · obtain ⟨one, ⟨⟩⟩ := Option.ite_none_right_eq_some.mp h
          rwa [hright.eq_one one, mul_one]
  | div =>
      obtain ⟨one, ⟨⟩⟩ := Option.ite_none_right_eq_some.mp h
      rw [ArithmeticOp.rational?, hright.eq_one one, if_neg one_ne_zero, div_one] at defined
      rwa [← Option.some.inj defined]
  | rem => cases h
  | pow =>
      obtain ⟨one, ⟨⟩⟩ := Option.ite_none_right_eq_some.mp h
      rw [ArithmeticOp.rational?, hright.eq_one one, if_pos (by norm_num)] at defined
      rw [← Option.some.inj defined]
      simpa using hleft

/-- An operation with a symbolic operand stands for its result, unless it is a product that looks
like a difference. -/
theorem StandsFor.of_combine {op : ArithmeticOp} {left right value : Value} {x y z : ℚ}
    (hleft : StandsFor valueOf left x) (hright : StandsFor valueOf right y)
    (h : combine (.arithmetic op) left right = .ok value) (defined : op.rational? x y = some z)
    (plain : op = .mul → ¬ LooksLikeDifference left right)
    : StandsFor valueOf value z := by
  unfold Algebra.combine at h
  split at h
  · next simplified =>
    obtain rfl := Except.ok.inj h
    exact hleft.of_trivial? hright simplified defined
  · next writes =>
    obtain ⟨l, leftOperand, h⟩ := bind_eq_ok_iff.mp h
    obtain ⟨r, rightOperand, h⟩ := bind_eq_ok_iff.mp h
    obtain ⟨s, combined, h⟩ := bind_eq_ok_iff.mp h
    obtain rfl := Except.ok.inj h
    refine .symbolic (denotes_combineMarkup (hleft.denotes leftOperand)
      (hright.denotes rightOperand) combined defined hleft.eq_neg_one ?_)
    -- Only a symbolic result is a product; numbers are atoms or hold together like sums.
    rintro rfl negating strength minus
    cases hright with
    | number q =>
        obtain rfl := Except.ok.inj rightOperand
        dsimp only at strength
        split at strength <;> exact nomatch strength
    | symbolic denotes =>
        obtain rfl := Except.ok.inj rightOperand
        exact plain rfl ⟨writes, negating, _, rfl, strength, minus⟩

/-- A product that looks like a difference is one to its readers: its markup denotes the first
factor without the opposite of the second one. -/
theorem StandsFor.sum_of_looksLikeDifference {left right : Value} {x y : ℚ} {s : Symbolic}
    (hleft : StandsFor valueOf left x) (hright : StandsFor valueOf right y)
    (h : combine (.arithmetic .mul) left right = .ok (.symbolic s))
    (looks : LooksLikeDifference left right)
    : Denotes valueOf .sum s.markup.toList (x + y) := by
  obtain ⟨writes, negating, r, rfl, strength, minus⟩ := looks
  rw [Algebra.combine, writes, negating] at h
  obtain ⟨l, leftOperand, h⟩ := bind_eq_ok_iff.mp h
  obtain rfl := Value.symbolic.inj (Except.ok.inj h)
  have second := hright.denotes rfl
  rw [strength] at second
  -- A minus leads the second factor only as an opposite, without parentheses around it.
  generalize text : r.markup.toList = markup at second minus
  cases second with
  | product product =>
      obtain ⟨c, rest, rfl, apart, _⟩ := product.exists_head ⟨nofun, nofun⟩
      exact absurd (Option.some.inj minus) apart
  | opposite body =>
      have difference := (denotes_wrap_product (hleft.denotes leftOperand)).term.sub body
      have kept : wrap r .product = r.markup := by simp [wrap, strength]
      rw [sub_eq_add_neg] at difference
      simpa [kept, text] using difference

theorem StandsFor.of_negate {value result : Value} {x : ℚ} (h : StandsFor valueOf value x)
    (negated : negate value = .ok result)
    : StandsFor valueOf result (-x) := by
  obtain ⟨s, operand, same⟩ := bind_eq_ok_iff.mp negated
  obtain rfl := Except.ok.inj same
  have opposite := (denotes_wrap_product (h.denotes operand)).opposite.term
  exact .symbolic (by simpa [partOf] using opposite)

end Algebra

-----------------------------------------------------------------------------------------
-- Evaluation
-----------------------------------------------------------------------------------------

open QuizVariants.Algebra

variable {algebra : HostAlgebra} {declared : List String}

/-- Arithmetic of the built-in algebra stands for its result, where that is defined. -/
theorem Operation.standsFor_of_arithmetic (builtIn : algebra = .exact declared)
    {valueOf : String → ℚ} {op : ArithmeticOp} {left right value : Value} {x y z : ℚ}
    (hleft : StandsFor valueOf left x) (hright : StandsFor valueOf right y)
    (h : arithmetic algebra op left right = .ok value) (defined : op.rational? x y = some z)
    (plain : op = .mul → ¬ LooksLikeDifference left right)
    : StandsFor valueOf value z := by
  subst builtIn
  cases hleft with
  | symbolic denotes => exact (StandsFor.symbolic denotes).of_combine hright h defined plain
  | number a =>
      cases hright with
      | symbolic denotes => exact (StandsFor.number a).of_combine (.symbolic denotes) h defined plain
      | number b =>
          obtain ⟨q, rfl, stands⟩ | ⟨_, rfl, fractional⟩ := rational?_of_exact h
          · obtain rfl := Option.some.inj (defined.symm.trans stands)
            exact .number q
          · rw [ArithmeticOp.rational?] at defined
            split at defined
            · next whole =>
              exact absurd (Rational.isInteger_iff.mpr whole.1) (Bool.eq_false_iff.mp fractional)
            · cases defined

theorem Operation.standsFor_of_pos {valueOf : String → ℚ} {operand value : Value} {x : ℚ}
    (h : StandsFor valueOf operand x) (computed : unary algebra .pos operand = .ok value)
    : StandsFor valueOf value x := by
  cases h with
  | number q =>
      obtain rfl := Except.ok.inj computed
      exact .number q
  | symbolic denotes =>
      obtain rfl := Except.ok.inj computed
      exact .symbolic denotes

theorem Operation.standsFor_of_neg (builtIn : algebra = .exact declared)
    {valueOf : String → ℚ} {operand value : Value} {x : ℚ}
    (h : StandsFor valueOf operand x) (computed : unary algebra .neg operand = .ok value)
    : StandsFor valueOf value (-x) := by
  subst builtIn
  cases h with
  | number q =>
      obtain ⟨r, negated, rfl⟩ := map_eq_ok_iff.mp computed
      rw [← Rational.toRat_neg (exactly_eq_ok_iff.mp negated)]
      exact .number r
  | symbolic denotes => exact (StandsFor.symbolic denotes).of_negate computed

namespace Expr

open Evaluation

/-- Some product in an expression looks like a difference: its second factor is written as a
product led by a minus. -/
def HidesDifference (scope : Scope) (draws : Draws) : Expr → Prop
  | .unary _ operand => operand.HidesDifference scope draws
  | .binary op left right =>
    left.HidesDifference scope draws ∨ right.HidesDifference scope draws
      ∨ op = .arithmetic .mul ∧ ∃ first second,
        (left.eval scope).outcome draws = (.ok first, draws)
          ∧ (right.eval scope).outcome draws = (.ok second, draws)
          ∧ LooksLikeDifference first second
  | _ => False

/-- The markup that arithmetic on symbols evaluates to denotes the number that the expression
stands for, whatever the symbols stand for; by induction on the expression. -/
theorem standsFor_of_eval {scope : Scope} (builtIn : scope.context.algebra = .exact declared)
    {draws rest : Draws} {valueOf : String → ℚ} {value : Value} {x : ℚ} (e : Expr)
    (arithmetic : e.IsArithmetic)
    (symbols : ∀ name ∈ e.mentioned,
      isName name.toList = true ∧ scope.value? name = some (symbol name))
    (plain : ¬ e.HidesDifference scope draws)
    (h : (e.eval scope).outcome draws = (.ok value, rest))
    (defined : e.rational? (fun name => some (valueOf name)) = some x)
    : rest = draws ∧ StandsFor valueOf value x := by
  match e with
  | .number q =>
      obtain ⟨⟨⟩, rfl⟩ := Prod.mk.inj h
      obtain rfl := Option.some.inj defined
      exact ⟨rfl, .number q⟩
  | .ident name =>
      obtain ⟨named, found⟩ := symbols name (List.mem_singleton_self name)
      simp only [eval, found] at h
      obtain ⟨⟨⟩, rfl⟩ := Prod.mk.inj h
      obtain rfl := Option.some.inj defined
      have denotes : Denotes valueOf .atom name.toList (valueOf (.ofList name.toList)) :=
        .symbol named
      rw [String.ofList_toList] at denotes
      exact ⟨rfl, .symbolic denotes⟩
  | .unary .pos operand =>
      obtain ⟨before, _, evaluated, last⟩ := outcome_bind_eq_ok_iff.mp h
      obtain ⟨rfl, stands⟩ :=
        standsFor_of_eval builtIn operand arithmetic symbols plain evaluated defined
      obtain ⟨computed, rfl⟩ := Prod.mk.inj last
      exact ⟨rfl, Operation.standsFor_of_pos stands computed⟩
  | .unary .neg operand =>
      obtain ⟨before, _, evaluated, last⟩ := outcome_bind_eq_ok_iff.mp h
      obtain ⟨y, inside, rfl⟩ := Option.map_eq_some_iff.mp defined
      obtain ⟨rfl, stands⟩ :=
        standsFor_of_eval builtIn operand arithmetic symbols plain evaluated inside
      obtain ⟨computed, rfl⟩ := Prod.mk.inj last
      exact ⟨rfl, Operation.standsFor_of_neg builtIn stands computed⟩
  | .binary (.arithmetic op) left right =>
      obtain ⟨leftArithmetic, rightArithmetic⟩ := arithmetic
      obtain ⟨leftSymbols, rightSymbols⟩ := List.forall_mem_append.mp symbols
      obtain ⟨y, leftDefined, defined⟩ := Option.bind_eq_some_iff.mp defined
      obtain ⟨z, rightDefined, defined⟩ := Option.bind_eq_some_iff.mp defined
      obtain ⟨first, _, leftEvaluated, later⟩ := outcome_bind_eq_ok_iff.mp h
      obtain ⟨rfl, hleft⟩ := standsFor_of_eval builtIn left leftArithmetic leftSymbols
        (fun hides => plain (.inl hides)) leftEvaluated leftDefined
      obtain ⟨second, _, rightEvaluated, last⟩ := outcome_bind_eq_ok_iff.mp later
      obtain ⟨rfl, hright⟩ := standsFor_of_eval builtIn right rightArithmetic rightSymbols
        (fun hides => plain (.inr (.inl hides))) rightEvaluated rightDefined
      obtain ⟨computed, rfl⟩ := Prod.mk.inj last
      refine ⟨rfl, Operation.standsFor_of_arithmetic builtIn hleft hright computed defined ?_⟩
      rintro rfl looks
      exact plain (.inr (.inr ⟨rfl, first, second, leftEvaluated, rightEvaluated, looks⟩))
termination_by sizeOf e

/-- Markup of the built-in algebra is faithful: arithmetic on symbols with the same markup is equal
wherever both are defined, if no product in it looks like a difference. -/
theorem rational?_eq_of_markup_eq {scope : Scope}
    (builtIn : scope.context.algebra = .exact declared) {e₁ e₂ : Expr}
    (arithmetic₁ : e₁.IsArithmetic) (arithmetic₂ : e₂.IsArithmetic)
    (symbols : ∀ name ∈ e₁.freeNames ++ e₂.freeNames,
      isName name.toList = true ∧ scope.value? name = some (symbol name))
    {draws₁ draws₂ rest₁ rest₂ : Draws} {s₁ s₂ : Symbolic}
    (evaluated₁ : (e₁.eval scope).outcome draws₁ = (.ok (.symbolic s₁), rest₁))
    (evaluated₂ : (e₂.eval scope).outcome draws₂ = (.ok (.symbolic s₂), rest₂))
    (plain₁ : ¬ e₁.HidesDifference scope draws₁) (plain₂ : ¬ e₂.HidesDifference scope draws₂)
    (same : s₁.markup = s₂.markup) (valueOf : String → ℚ) {x y : ℚ}
    (defined₁ : e₁.rational? (fun name => some (valueOf name)) = some x)
    (defined₂ : e₂.rational? (fun name => some (valueOf name)) = some y)
    : x = y := by
  obtain ⟨symbols₁, symbols₂⟩ := List.forall_mem_append.mp symbols
  obtain ⟨_, stands₁⟩ := standsFor_of_eval builtIn e₁ arithmetic₁
    (fun name member => symbols₁ name (mem_freeNames.mpr member)) plain₁ evaluated₁ defined₁
  obtain ⟨_, stands₂⟩ := standsFor_of_eval builtIn e₂ arithmetic₂
    (fun name member => symbols₂ name (mem_freeNames.mpr member)) plain₂ evaluated₂ defined₂
  cases stands₁ with | symbolic denotes₁ =>
  cases stands₂ with | symbolic denotes₂ =>
  have sum₁ := denotes₁.toSum
  rw [same] at sum₁
  exact sum₁.unique denotes₂.toSum

/-- A scope with two symbols and nothing else. -/
def twoSymbols : Scope :=
  { locals := .empty
    context := { symbols := ["x", "y"] } }

/-- The opposite of a name as a product, `-1 * name`. -/
def oppositeOf (name : String) : Expr :=
  .binary (.arithmetic .mul) (.unary .neg (.number 1)) (.ident name)

/-- `x + -1 * y`, whose product is written as an opposite. -/
def sumWithOpposite : Expr :=
  .binary (.arithmetic .add) (.ident "x") (oppositeOf "y")

/-- `x - y`. -/
def difference : Expr :=
  .binary (.arithmetic .sub) (.ident "x") (.ident "y")

/-- The sum with an opposite and the difference have the same markup, and the same value where `x`
is seven and `y` is a third. -/
theorem rational?_sumWithOpposite
    : (sumWithOpposite.eval twoSymbols).outcome (.ofSeed 0)
        = (.ok (.symbolic ⟨"x - y", .sum⟩), .ofSeed 0)
      ∧ (difference.eval twoSymbols).outcome (.ofSeed 0)
        = (.ok (.symbolic ⟨"x - y", .sum⟩), .ofSeed 0)
      ∧ (7 + -1 * (1 / 3) : ℚ) = 7 - 1 / 3 := by
  have sum : (sumWithOpposite.eval twoSymbols).outcome (.ofSeed 0)
      = (.ok (.symbolic ⟨"x - y", .sum⟩), .ofSeed 0) := rfl
  have minus : (difference.eval twoSymbols).outcome (.ofSeed 0)
      = (.ok (.symbolic ⟨"x - y", .sum⟩), .ofSeed 0) := rfl
  have symbols : ∀ name ∈ sumWithOpposite.freeNames ++ difference.freeNames,
      isName name.toList = true ∧ twoSymbols.value? name = some (symbol name) := by
    intro name member
    have either : name = "x" ∨ name = "y" := by
      simpa [sumWithOpposite, difference, oppositeOf, mem_freeNames, mentioned] using member
    rcases either with rfl | rfl <;> exact ⟨by decide, rfl⟩
  -- The only product has a symbol as its second factor, which no minus leads.
  have plain : ¬ sumWithOpposite.HidesDifference twoSymbols (.ofSeed 0) := by
    simp only [sumWithOpposite, oppositeOf, HidesDifference, false_or, not_or]
    refine ⟨?_, nofun⟩
    rintro ⟨_, _, second, _, evaluated, _, _, s, rfl, strength, _⟩
    obtain ⟨⟨⟩, _⟩ := Prod.mk.inj evaluated
    exact nomatch strength
  have other : ¬ difference.HidesDifference twoSymbols (.ofSeed 0) := by
    simp [difference, HidesDifference]
  have arithmetic : sumWithOpposite.IsArithmetic ∧ difference.IsArithmetic :=
    ⟨⟨trivial, trivial, trivial⟩, trivial, trivial⟩
  refine ⟨sum, minus, ?_⟩
  have builtIn : twoSymbols.context.algebra = .exact ["x", "y"] := rfl
  refine rational?_eq_of_markup_eq builtIn arithmetic.1 arithmetic.2 symbols sum minus plain other rfl
    (fun name => if name = "x" then 7 else 1 / 3) ?_ ?_
  · simp [sumWithOpposite, oppositeOf, rational?, ArithmeticOp.rational?]
  · simp [difference, rational?, ArithmeticOp.rational?]

/-- `2 * (-1 * x)`, a product that looks like a difference. -/
def hiddenProduct : Expr :=
  .binary (.arithmetic .mul) (.number (.integer 2 fits_two)) (oppositeOf "x")

/-- `2 - x`. -/
def shownDifference : Expr :=
  .binary (.arithmetic .sub) (.number (.integer 2 fits_two)) (.ident "x")

/-- A product that looks like a difference has the markup of that difference, and another value
where `x` is one. -/
theorem rational?_hiddenProduct_ne
    : hiddenProduct.IsArithmetic ∧ shownDifference.IsArithmetic
      ∧ (hiddenProduct.eval twoSymbols).outcome (.ofSeed 0)
        = (.ok (.symbolic ⟨"2 - x", .product⟩), .ofSeed 0)
      ∧ (shownDifference.eval twoSymbols).outcome (.ofSeed 0)
        = (.ok (.symbolic ⟨"2 - x", .sum⟩), .ofSeed 0)
      ∧ hiddenProduct.rational? (fun _ => some 1) = some (-2)
      ∧ shownDifference.rational? (fun _ => some 1) = some 1 := by
  refine ⟨⟨trivial, trivial, trivial⟩, ⟨trivial, trivial⟩, rfl, rfl, ?_, ?_⟩
  · simp [hiddenProduct, oppositeOf, rational?, ArithmeticOp.rational?]
  · norm_num [shownDifference, rational?, ArithmeticOp.rational?]

end Expr

end QuizVariants
