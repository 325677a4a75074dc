import QuizVariants.Literal.Text
import QuizVariants.Proofs.Decimal.Digits
import QuizVariants.Proofs.Literal.Division
import QuizVariants.Proofs.Text.Bare

/-! Scalars.
The source form of an integer, a keyword or a string is a trimmed text on one line that is closed
in itself and is read back as the literal.
-/

namespace QuizVariants.Literal

open QuizVariants.Text
open QuizVariants.Decimal

/-- A literal that is neither a float nor a list nor kept verbatim. -/
def IsScalar : Literal → Prop
  | .integer _ => True
  | .bool _ => True
  | .nan => True
  | .quoted _ => True
  | _ => False

/-- A source form of a scalar: bare characters, or a text in quotes. -/
def Spelled (text : List Char) : Prop :=
  (text ≠ [] ∧ ∀ c ∈ text, isBare c = true) ∨ ∃ content, text = quote content

theorem spelled_of_all {text : List Char} (shows : text.isEmpty = false)
    (bare : text.all isBare = true)
    : Spelled text :=
  Or.inl ⟨List.isEmpty_eq_false_iff.mp shows, List.all_eq_true.mp bare⟩

theorem Spelled.shown {text : List Char} (h : Spelled text) : Shown text := by
  rcases h with ⟨shows, bare⟩ | ⟨content, rfl⟩
  · exact ⟨trimmed_of_bare bare, shows, not_mem_of_bare bare rfl⟩
  · exact ⟨trimmed_quote content, List.cons_ne_nil _ _, newline_not_mem_quote content⟩

theorem closed_of_bare {text : List Char} (bare : ∀ c ∈ text, isBare c = true) : Closed text := by
  refine closed_of_plain (fun c member => ?_)
  have apart (other : Char) (h : isBare other = false) : c ≠ other :=
    ne_of_kind (bare c member) h
  simp [isQuote, opensBracket, closesBracket, apart ',' rfl, apart '"' rfl, apart '\'' rfl,
    apart '[' rfl, apart '(' rfl, apart '\x7b' rfl, apart ']' rfl, apart ')' rfl, apart '\x7d' rfl]

theorem Spelled.closed {text : List Char} (h : Spelled text) : Closed text := by
  rcases h with ⟨_, bare⟩ | ⟨content, rfl⟩
  · exact closed_of_bare bare
  · exact closed_quote content

/-- The digits of an integer, with a minus in front of them if there is one, are bare. -/
theorem isBare_of_mem_integerText {n : Int} {c : Char} (h : c ∈ Rational.integerText n)
    : isBare c = true := by
  rcases List.mem_append.mp h with sign | digit
  · have minus : c = '-' := by
      split at sign
      · exact List.mem_singleton.mp sign
      · exact nomatch sign
    rw [minus]
    rfl
  · exact isBare_of_isDigit (isDigit_of_mem_digitsOf digit)

/-- The sign of an integer is split off from its digits. -/
theorem sign_integerText (n : Int)
    : sign (Rational.integerText n) = (decide (n < 0), digitsOf n.natAbs) := by
  by_cases negative : n < 0
  · simp [Rational.integerText, negative, sign]
  · have digits : ∀ c ∈ digitsOf n.natAbs, isDigit c = true := fun _ => isDigit_of_mem_digitsOf
    simp only [Rational.integerText, negative, if_false, List.nil_append, decide_false]
    -- Digits start with no sign.
    unfold sign
    split
    · next rest starts =>
      exact absurd (digits '-' (starts ▸ List.mem_cons_self)) (by decide)
    · next rest starts =>
      exact absurd (digits '+' (starts ▸ List.mem_cons_self)) (by decide)
    · rfl

theorem readNumber?_integerText (word : Word)
    : readNumber? (Rational.integerText word.toInt) = some (.integer word) := by
  have value : signed (decide (word.toInt < 0)) word.toInt.natAbs = word.toInt := by
    by_cases negative : word.toInt < 0
    · simp only [signed, negative, decide_true, if_true]
      omega
    · simp only [signed, negative, decide_false, Bool.false_eq_true, if_false]
      omega
  have fits : Word.ofInt? word.toInt = some word := by
    rw [Word.ofInt?, dif_pos word.fits]
  rw [readNumber?, sign_integerText]
  simp [Numeral.read?_digitsOf, Numeral.natural?, naturalOf_digitsOf, value, fits]

/-- A number starts with a digit, a sign or a point. -/
theorem readNumber?_eq_none {c : Char} {rest : List Char} (digit : isDigit c = false)
    (apart : c ∉ ['-', '+', '.'])
    : readNumber? (c :: rest) = none := by
  simp only [List.mem_cons, List.not_mem_nil, or_false, not_or] at apart
  obtain ⟨minus, plus, point⟩ := apart
  have unsigned : sign (c :: rest) = (false, c :: rest) := by
    unfold sign
    split
    · next same => exact absurd (List.cons.inj same).1 minus
    · next same => exact absurd (List.cons.inj same).1 plus
    · rfl
  have unread : Numeral.read? (c :: rest) = none := by
    simp [Numeral.read?, digitRun, digit, point]
  simp only [readNumber?, unsigned, unread]

/-- A keyword starts with a letter. -/
theorem readKeyword?_eq_none {c : Char} {rest : List Char} (apart : startsName c = false)
    : readKeyword? (c :: rest) = none := by
  have other {first : Char} {more : List Char} (letter : startsName first = true)
      : String.ofList (c :: rest) ≠ String.ofList (first :: more) := by
    intro same
    obtain ⟨start, _⟩ := List.cons.inj (String.ofList_injective same)
    exact ne_of_kind letter apart start.symm
  unfold readKeyword?
  split
  case h_7 => rfl
  all_goals
    next same => exact absurd same (other rfl)

/-- A scalar is read back from its source form. -/
theorem scalar?_source {literal : Literal} (h : literal.IsScalar)
    : scalar? literal.source.toList = some literal := by
  cases literal with
  | integer word =>
      rw [source, String.toList_ofList, scalar?, readNumber?_integerText]
      rfl
  | bool value => cases value <;> rfl
  | nan => rfl
  | quoted text =>
      have number : readNumber? (quote text.toList) = none :=
        readNumber?_eq_none (by decide) (by decide)
      have keyword : readKeyword? (quote text.toList) = none := readKeyword?_eq_none rfl
      rw [source, String.toList_ofList, scalar?, number, keyword, readString?_quote,
        String.ofList_toList]
      rfl
  | float _ | list _ | verbatim _ => exact h.elim

theorem spelled_source {literal : Literal} (h : literal.IsScalar)
    : Spelled literal.source.toList := by
  cases literal with
  | integer word =>
      rw [source, String.toList_ofList]
      refine Or.inl ⟨?_, fun _ => isBare_of_mem_integerText⟩
      exact List.append_ne_nil_of_right_ne_nil _ (digitsOf_ne_nil _)
  | bool value => cases value <;> exact spelled_of_all rfl rfl
  | nan => exact spelled_of_all rfl rfl
  | quoted text => exact Or.inr ⟨text.toList, by rw [source, String.toList_ofList]⟩
  | float _ | list _ | verbatim _ => exact h.elim

end QuizVariants.Literal
