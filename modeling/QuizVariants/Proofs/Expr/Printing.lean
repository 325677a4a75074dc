import QuizVariants.Proofs.Expr.Completeness
import QuizVariants.Proofs.Expr.Exactness

/-! Texts of fractions as expressions.
The text of a fraction is read as the digits of its parts, with a sign in front of both. The least
word has a size that is no word: its digits are read as a float, and its text has no exact value.
All other texts have their fraction as the value.
-/

namespace QuizVariants.Expr

open QuizVariants.Decimal
open QuizVariants.Text
open QuizVariants.Rational (integerText)

/-- The tree of the digits of a number. -/
def ofNatural (n : Nat) : Expr :=
  ofNumeral ⟨digitsOf n, none, none⟩

/-- The tree of the text of an integer, a sign in front of its size. -/
def ofInteger (n : Int) : Expr :=
  if n < 0 then .unary .neg (ofNatural n.natAbs) else ofNatural n.natAbs

/-- The tree of the text of a fraction: the sign belongs to the numerator. -/
def ofFraction (r : Rational) : Expr :=
  if r.den = 1 then ofInteger r.num
  else .binary (.arithmetic .div) (ofInteger r.num) (ofNatural r.den)

-----------------------------------------------------------------------------------------
-- Texts of fractions are read
-----------------------------------------------------------------------------------------

variable {bound : Nat}

theorem continuesName_of_mem_digitsOf {n : Nat} {c : Char} (member : c ∈ digitsOf n)
    : continuesName c = true := by
  rw [continuesName, isDigit_of_mem_digitsOf member, Bool.or_true]

theorem startsOperand_digitsOf (unsigned : Bool) (n : Nat)
    : StartsOperand unsigned (digitsOf n) :=
  .word (digitsOf_ne_nil n) fun _ => continuesName_of_mem_digitsOf

/-- Digits are read on every level that no sign starts, and so where one may stand. -/
theorem readsBack_natural (n : Nat)
    : ReadsBack bound (.expression .signed (ofNatural n)) (digitsOf n) := by
  have starts (_ : true = true) : StartsOperand true (digitsOf n) := startsOperand_digitsOf true n
  have atom : ReadsBack bound (.expression .atom (ofNatural n)) (digitsOf n) :=
    fun _ => atom_number (digitsOf_ne_nil n) fun _ => isDigit_of_mem_digitsOf
  have subscripted : ReadsBack bound (.expression .subscripted (ofNatural n)) (digitsOf n) :=
    atom.tighter starts
  have power : ReadsBack bound (.expression .power (ofNatural n)) (digitsOf n) :=
    subscripted.tighter starts
  exact power.tighter starts

theorem readsBack_integer (n : Int)
    : ReadsBack (bound + 1) (.expression .product (ofInteger n)) (integerText n) := by
  have signed : ReadsBack (bound + 1) (.expression .signed (ofInteger n)) (integerText n) := by
    rw [ofInteger, integerText]
    split
    · exact (readsBack_natural n.natAbs).sign
    · exact readsBack_natural n.natAbs
  exact signed.looser rfl

theorem readsBack_fraction (r : Rational)
    : ReadsBack (bound + 1) (.expression .comparison (ofFraction r)) r.text.toList := by
  have product : ReadsBack (bound + 1) (.expression .product (ofFraction r)) r.text.toList := by
    rw [ofFraction, Rational.text, String.toList_ofList]
    split
    · exact readsBack_integer r.num
    · exact (readsBack_integer r.num).product (.inr (.inl rfl))
        (startsOperand_digitsOf false r.den) (readsBack_natural r.den)
  have sum : ReadsBack (bound + 1) (.expression .sum (ofFraction r)) r.text.toList :=
    product.looser rfl
  exact sum.looser rfl

/-- The sign of an integer is one level, and its digits are none. -/
theorem foldl_step_integerText (n : Int)
    : ∃ signs deepest last,
        deepest ≤ 1
        ∧ (integerText n).foldl Nesting.step .start = ⟨0, signs, 0, deepest, none, false, last⟩ := by
  have digits (c : Char) (member : c ∈ digitsOf n.natAbs) : continuesName c = true :=
    continuesName_of_mem_digitsOf member
  rw [integerText]
  split
  · obtain ⟨signs, last, fold⟩ := foldl_step_name digits 1 1 '-'
    exact ⟨signs, 1, last, Nat.le_refl 1, fold⟩
  · obtain ⟨signs, last, fold⟩ := foldl_step_name digits 0 0 ' '
    exact ⟨signs, 0, last, Nat.zero_le 1, fold⟩

theorem nestingDepth_text (r : Rational) : nestingDepth r.text.toList ≤ maxNesting := by
  have enough : 1 ≤ maxNesting := by decide
  obtain ⟨signs, deepest, last, flat, top⟩ := foldl_step_integerText r.num
  rw [Rational.text, String.toList_ofList, nestingDepth]
  split
  · rw [top]
    exact flat.trans enough
  · have bar : Nesting.step ⟨0, signs, 0, deepest, none, false, last⟩ '/'
        = ⟨0, 0, 0, deepest, none, false, '/'⟩ := by
      simp [Nesting.step, Nesting.stepOutside, Literal.opensBracket, Literal.closesBracket,
        Literal.isQuote, isBlank]
    have digits (c : Char) (member : c ∈ digitsOf r.den) : continuesName c = true :=
      continuesName_of_mem_digitsOf member
    obtain ⟨_, _, bottom⟩ := foldl_step_name digits 0 deepest '/'
    rw [List.foldl_append, top, List.foldl_cons, bar, bottom]
    exact flat.trans enough

theorem integerText_ne_nil (n : Int) : integerText n ≠ [] :=
  List.append_ne_nil_of_right_ne_nil _ (digitsOf_ne_nil n.natAbs)

/-- The text of a fraction is read as its tree. -/
theorem parse_text (r : Rational) : parse r.text = .ok (ofFraction r) := by
  have shows : r.text.toList ≠ [] := by
    rw [Rational.text, String.toList_ofList]
    split
    · exact integerText_ne_nil r.num
    · exact List.append_ne_nil_of_left_ne_nil (integerText_ne_nil r.num) _
  obtain ⟨inner, size⟩ := Nat.exists_eq_succ_of_ne_zero (mt List.length_eq_zero_iff.mp shows)
  refine ReadsBack.parseChars ?_ (nestingDepth_text r)
  rw [size]
  exact readsBack_fraction r

-----------------------------------------------------------------------------------------
-- Values of texts
-----------------------------------------------------------------------------------------

open QuizVariants.Rational (ofRat_eq_ok_iff toRat_integer neg_eq div_eq)

theorem ofNatural_of_fits {n : Nat} (fits : Fits n)
    : ofNatural n = .number (.integer n fits) := by
  have digits : Fits (naturalOf (digitsOf n)) := by rwa [naturalOf_digitsOf]
  rw [ofNatural, ofNumeral_of_fits digits]
  simp only [naturalOf_digitsOf]

/-- The digits of a number that is no word are read as a float. -/
theorem ofNatural_of_not_fits {n : Nat} (large : ¬ Fits n)
    : ∃ x, ofNatural n = .float x := by
  have natural : Numeral.natural? ⟨digitsOf n, none, none⟩ = some n :=
    congrArg some (naturalOf_digitsOf n)
  have word : Word.ofInt? n = none := dif_neg large
  refine ⟨Numeral.toFloat ⟨digitsOf n, none, none⟩, ?_⟩
  rw [ofNatural, ofNumeral, natural, Option.bind_some, word]

/-- Words but the least one are the values of their texts. -/
theorem eval_ofInteger (scope : Scope) {n : Int} (fits : Fits n) (other : n ≠ -wordBound)
    : (ofInteger n).eval scope = pure (.number (.integer n fits)) := by
  have size : Fits n.natAbs := by
    unfold Fits wordBound at *
    omega
  rw [ofInteger, ofNatural_of_fits size]
  split
  · next negative =>
    have opposite : (Rational.integer n.natAbs size).neg = .ok (.integer n fits) := by
      rw [neg_eq, ofRat_eq_ok_iff, toRat_integer, toRat_integer]
      have : (n : Int) = -n.natAbs := by omega
      exact_mod_cast this
    have negated : Operation.unary scope.context.algebra .neg (.number (.integer n.natAbs size))
        = .ok (.number (.integer n fits)) := by
      rw [Operation.unary, opposite]
      rfl
    simp only [eval, pure_bind, negated]
    rfl
  · next positive =>
    rw [eval]
    have same : (n.natAbs : Int) = n := by omega
    simp only [same]

theorem eval_ofFraction (scope : Scope) {r : Rational} (other : r.num ≠ -wordBound)
    : (ofFraction r).eval scope = pure (.number r) := by
  rw [ofFraction]
  split
  · next whole =>
    rw [eval_ofInteger scope r.num_fits other]
    congr 2
    exact Rational.ext_parts rfl whole.symm
  · have quotient : (Rational.integer r.num r.num_fits).div (.integer r.den r.den_fits)
        = .ok r := by
      have nonzero : (r.den : ℚ) ≠ 0 := r.den_ne_zero
      rw [div_eq, toRat_integer, toRat_integer, Int.cast_natCast, if_neg nonzero, ofRat_eq_ok_iff]
      rfl
    have divided : Operation.binary scope.context.algebra (.arithmetic .div)
        (.number (.integer r.num r.num_fits)) (.number (.integer r.den r.den_fits))
        = .ok (.number r) := by
      rw [Operation.binary, Operation.arithmetic, Operation.exact, quotient]
      rfl
    rw [eval, eval_ofInteger scope r.num_fits other, ofNatural_of_fits r.den_fits]
    simp only [eval, pure_bind, divided]
    rfl

/-- The text of a fraction whose numerator is the least word has no value but a float. -/
theorem exists_float_of_eval_ofFraction {scope : Scope} {r : Rational} {draws rest : Draws}
    {value : Value} (least : r.num = -wordBound)
    (h : ((ofFraction r).eval scope).outcome draws = (.ok value, rest))
    : ∃ x, value = .float x := by
  obtain ⟨size, digits⟩ : ∃ x, ofNatural r.num.natAbs = .float x :=
    ofNatural_of_not_fits (by rw [least]; decide)
  have top : (ofInteger r.num).eval scope = pure (.float (-size)) := by
    rw [ofInteger, if_pos (by rw [least]; decide), digits]
    rfl
  rw [ofFraction] at h
  split at h
  · rw [top] at h
    obtain ⟨⟨⟩, -⟩ := Prod.mk.inj h
    exact ⟨_, rfl⟩
  · rw [eval, top, ofNatural_of_fits r.den_fits] at h
    simp only [eval, pure_bind] at h
    obtain ⟨computed, -⟩ := Prod.mk.inj h
    exact Operation.exists_of_float (show Operation.float .div _ _ = _ from computed)

/-- A fraction is the value of its tree, unless its numerator is the least word; then no fraction
is. -/
theorem eval_ofFraction_eq_iff {scope : Scope} {r q : Rational} {draws rest : Draws}
    : ((ofFraction r).eval scope).outcome draws = (.ok (.number q), rest)
      ↔ r.num ≠ -wordBound ∧ q = r ∧ rest = draws := by
  by_cases least : r.num = -wordBound
  · refine iff_of_false (fun h => ?_) (fun h => h.1 least)
    obtain ⟨x, float⟩ := exists_float_of_eval_ofFraction least h
    exact nomatch float
  · have value : ((ofFraction r).eval scope).outcome draws = (.ok (.number r), draws) := by
      rw [eval_ofFraction scope least]
      rfl
    rw [value]
    simp [least, eq_comm]

/-- No names are read in the tree of a fraction. -/
theorem freeNames_ofFraction (r : Rational) : (ofFraction r).freeNames = [] := by
  have natural (n : Nat) : (ofNatural n).mentioned = [] := by
    rw [ofNatural, ofNumeral]
    split <;> rfl
  have integer : (ofInteger r.num).mentioned = [] := by
    rw [ofInteger]
    split
    · rw [Expr.mentioned, natural]
    · exact natural r.num.natAbs
  have mentioned : (ofFraction r).mentioned = [] := by
    rw [ofFraction]
    split
    · exact integer
    · rw [Expr.mentioned, integer, natural, List.nil_append]
  rw [freeNames, mentioned, List.foldr_nil]

end QuizVariants.Expr
