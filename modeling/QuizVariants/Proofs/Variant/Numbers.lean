import QuizVariants.Proofs.Expr.Printing
import QuizVariants.Proofs.Variant.Parameters

/-! Numbers as texts and as parameters.
A fraction is written as an expression that has this fraction as its value, and so is the integer
that a parameter is declared as. The least word is the exception: its text is read as a float
behind a sign, although it is a word.
-/

namespace QuizVariants

open QuizVariants.Decimal (digitsOf ofList_digitsOf ofList_integerText)
open QuizVariants.Expr (ofFraction parse_text eval_ofFraction_eq_iff freeNames_ofFraction)

/-- Fractions are written in decimal: whole ones as one number, others with a bar. -/
theorem Rational.text_eq (r : Rational)
    : r.text
        = if r.den = 1 then toString r.num else toString r.num ++ "/" ++ toString r.den := by
  rw [text, apply_ite String.ofList, ofList_integerText]
  split
  · rfl
  · have bar : '/' :: digitsOf r.den = ['/'] ++ digitsOf r.den := rfl
    rw [bar, String.ofList_append, String.ofList_append, ofList_integerText, ofList_digitsOf,
      String.append_assoc]

/-- The value of the text of a fraction is that of its tree. -/
theorem Scope.evaluate_of_fraction (scope : Scope) (r : Rational)
    : scope.evaluate r.text = (ofFraction r).eval scope := by
  rw [evaluate, parse_text]
  rfl

namespace Definition

/-- A parameter declared as an integer has this integer as its value, but for the least word. -/
theorem get?_values_integer_iff {definition : Definition}
    (ordered : definition.isScripted = false) (context : Context) (draws : Draws) {name : String}
    {word : Word} (declared : definition.parameters.get? name = some (.integer word))
    : ((definition.instantiate context).run draws).1.values.get? name
        = some (.number (.integer word.toInt word.fits))
      ↔ word.toInt ≠ -wordBound := by
  have parsed : Expr.parse (Literal.integer word).expression
      = .ok (ofFraction (.integer word.toInt word.fits)) :=
    parse_text (.integer word.toInt word.fits)
  obtain ⟨scope, earlier, result, later, ran, value⟩ :=
    outcome_of_closed ordered context draws declared parsed (freeNames_ofFraction _)
  rw [value]
  constructor
  · intro found
    cases result with
    | error error => exact nomatch found
    | ok other =>
        obtain rfl := Option.some.inj found
        exact (eval_ofFraction_eq_iff.mp ran).1
  · intro other
    have evaluated : ((ofFraction (.integer word.toInt word.fits)).eval scope).outcome earlier
        = (.ok (.number (.integer word.toInt word.fits)), earlier) :=
      eval_ofFraction_eq_iff.mpr ⟨other, rfl, rfl⟩
    obtain rfl : result = _ := congrArg Prod.fst (ran.symm.trans evaluated)
    rfl

end Definition

/-- Which exact numbers are written as texts that give them back.
A fraction is written with its parts in decimal. In every scope and with any draws this text
evaluates to the fraction, and a parameter that is declared as an integer has this integer as its
value in every instantiation of a definition without a script, except where the numerator is the
least word. Then the text evaluates to no fraction at all.
-/
theorem evaluate_text_iff (r : Rational) (scope : Scope) (draws : Draws)
    : r.text = (if r.den = 1 then toString r.num else toString r.num ++ "/" ++ toString r.den)
      ∧ ((scope.evaluate r.text).outcome draws = (.ok (.number r), draws) ↔ r.num ≠ -wordBound)
      ∧ ((∃ q rest, (scope.evaluate r.text).outcome draws = (.ok (.number q), rest))
        ↔ r.num ≠ -wordBound)
      ∧ ∀ (definition : Definition) (context : Context) (name : String) (word : Word),
          definition.isScripted = false
          → definition.parameters.get? name = some (.integer word)
          → (((definition.instantiate context).run draws).1.values.get? name
              = some (.number (.integer word.toInt word.fits))
            ↔ word.toInt ≠ -wordBound) := by
  rw [scope.evaluate_of_fraction]
  refine ⟨r.text_eq, ?_, ?_, fun definition context name word ordered declared =>
    Definition.get?_values_integer_iff ordered context draws declared⟩
  · rw [eval_ofFraction_eq_iff]
    exact and_iff_left ⟨rfl, rfl⟩
  · simp only [eval_ofFraction_eq_iff]
    exact ⟨fun ⟨_, _, other, _⟩ => other, fun other => ⟨r, draws, other, rfl, rfl⟩⟩

/-- The least word is written with the digits of a number that is no word. -/
theorem evaluate_text_least
    : (Rational.integer (-wordBound)).text = "-9223372036854775808"
      ∧ ∀ (scope : Scope) (draws : Draws),
          (scope.evaluate "-9223372036854775808").outcome draws
            ≠ (.ok (.number (.integer (-wordBound))), draws) := by
  have text : (Rational.integer (-wordBound)).text = "-9223372036854775808" := by decide
  refine ⟨text, fun scope draws evaluated => ?_⟩
  rw [← text, scope.evaluate_of_fraction, eval_ofFraction_eq_iff] at evaluated
  exact evaluated.1 rfl

end QuizVariants
