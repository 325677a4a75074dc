import QuizVariants.Library.Format
import QuizVariants.Proofs.Decimal.Digits
import QuizVariants.Proofs.Rational.Overflow

/-! Fractions of two words.
The fraction of two words is written in lowest terms: as one number if it is whole, and otherwise as
its sign in front of the sizes of its parts. The size of the least word is not a word itself, so
that the fractions with this numerator, and no other ones, cannot be written.
-/

namespace QuizVariants.Library

open Rational

/-- How the sizes of two parts are put together in a style. -/
def FractionStyle.join (style : FractionStyle) (top bottom : Nat) : String :=
  match style with
  | .display =>
    "\\dfrac" ++ "\x7b" ++ toString top ++ "\x7d" ++ "\x7b" ++ toString bottom ++ "\x7d"
  | .inline => toString top ++ "/" ++ toString bottom

/-- How a rational number is written in a style: in lowest terms, with one sign in front of both
parts, and as one number if it is whole. -/
def FractionStyle.text (style : FractionStyle) (q : ℚ) : String :=
  if q.den = 1 then toString q.num
  else (if q.num < 0 then "-" else "") ++ style.join q.num.natAbs q.den

theorem integerMarkup_eq (n : Int) : Algebra.integerMarkup n = toString n :=
  Decimal.ofList_integerText n

theorem integerMarkup_natCast (n : Nat) : Algebra.integerMarkup n = toString n :=
  integerMarkup_eq n

variable {style : FractionStyle} {r size : Rational}

theorem write_eq_join (h : 0 ≤ r.num)
    : style.write r = style.join r.num.natAbs r.den := by
  obtain ⟨top, same⟩ := Int.eq_ofNat_of_zero_le h
  cases style with
  | display =>
      simp only [FractionStyle.write, FractionStyle.join, same, integerMarkup_natCast,
        Int.natAbs_natCast, Algebra.braced, String.append_assoc]
  | inline =>
      simp only [FractionStyle.write, FractionStyle.join, same, integerMarkup_natCast,
        Int.natAbs_natCast]

theorem withMinus_eq (negative : Bool) (text : String)
    : withMinus negative text = (if negative then "-" else "") ++ text := by
  cases negative with
  | true => rfl
  | false => exact String.empty_append.symm

/-- The sign that is taken off for the size is put back in front of whichever text is written. -/
theorem text_of_abs (h : r.abs = .ok size)
    : (if size.isInteger then
        Algebra.integerMarkup (if r.isNegative then -size.num else size.num)
      else withMinus r.isNegative (style.write size))
        = style.text r.toRat := by
  obtain ⟨top, bottom⟩ := parts_of_abs h
  have nonnegative : 0 ≤ size.num := top ▸ abs_nonneg r.num
  have number : (if r.num < 0 then -|r.num| else |r.num|) = r.num := by
    split
    · next negative => rw [abs_of_neg negative, neg_neg]
    · next other => rw [abs_of_nonneg (not_lt.mp other)]
  simp only [FractionStyle.text, num_toRat, den_toRat, Rational.isInteger, Rational.isNegative,
    beq_iff_eq, decide_eq_true_eq, withMinus_eq, write_eq_join nonnegative, integerMarkup_eq, top,
    bottom, number, Int.natAbs_abs]

/-- Two integers are written as their fraction, where this has a size. -/
theorem writeRatio_eq {num den : Value} {n d : Int} (top : num.toInteger = .ok n)
    (bottom : den.toInteger = .ok d)
    : writeRatio style num den = (do
        let r ← exactly (ofRatio n d)
        if r.num ≠ -wordBound then .ok (.string (style.text r.toRat))
        else .error (.arithmetic .overflow)) := by
  rw [writeRatio, top, bottom]
  refine congrArg (exactly (ofRatio n d) >>= ·) (funext fun r => ?_)
  have size := r.representable_abs_iff
  by_cases other : r.num ≠ -wordBound
  · obtain ⟨size, found, -⟩ := exists_ofRat (size.mpr other)
    have sized : r.abs = .ok size := r.abs_eq.trans found
    rw [if_pos other, ← text_of_abs sized, sized, apply_ite Value.string, apply_ite Except.ok]
    rfl
  · have overflow : r.abs = .error .overflow :=
      r.abs_eq.trans (ofRat_eq_overflow_iff.mpr (mt size.mp other))
    rw [if_neg other, overflow]
    rfl

/-- Two words are written as their fraction in lowest terms, a negative one with its sign in front
of both parts. There is no answer for a fraction by zero, for one with a part that does not fit in a
word, and for one whose numerator is the least word. -/
theorem writeFraction_words (style : FractionStyle) (num den : Word)
    : let q : ℚ := num.toInt / den.toInt
      writeFraction style
          ⟨[.integer num.toInt num.fits, .integer den.toInt den.fits], []⟩
        = if den.toInt = 0 then .error (.arithmetic .divisionByZero)
          else if Representable q ∧ q.num ≠ -wordBound then .ok (.string (style.text q))
          else .error (.arithmetic .overflow) := by
  intro q
  have top : (Value.integer num.toInt num.fits).toInteger = .ok num.toInt := rfl
  have bottom : (Value.integer den.toInt den.fits).toInteger = .ok den.toInt := rfl
  refine (writeRatio_eq top bottom).trans ?_
  rw [ofRatio_eq]
  split
  · rfl
  · by_cases fits : Representable q
    · obtain ⟨r, found, denotes⟩ := exists_ofRat fits
      rw [found, ← denotes]
      simp only [num_toRat, r.representable_toRat, true_and]
      rfl
    · rw [if_neg (fun h => fits h.1), ofRat_eq_overflow_iff.mpr fits]
      rfl

/-- The least word is the fraction of itself by one, but neither style writes it. -/
theorem writeFraction_least
    : Representable ((-wordBound : Int) / (1 : Int) : ℚ)
      ∧ ∀ style : FractionStyle,
          writeFraction style ⟨[.integer (-wordBound), .integer 1], []⟩
            = .error (.arithmetic .overflow) := by
  refine ⟨?_, fun style => by cases style <;> rfl⟩
  rw [Int.cast_one, div_one]
  exact representable_word (by decide)

end QuizVariants.Library
