import QuizVariants.Expr.Grammar
import QuizVariants.Proofs.Expr.Parsing
import QuizVariants.Proofs.Text.Bare

/-! Identifiers.
A name is read as a whole, it is neither a number nor a string, and nothing in it is nested.
-/

namespace QuizVariants.Expr

open QuizVariants.Text
open QuizVariants.Parser

/-- A name that can stand for a variable: an identifier that is no truth value. -/
def IsVariable (name : String) : Prop :=
  isName name.toList = true ∧ name ∉ ["True", "true", "False", "false"]

instance (name : String) : Decidable (IsVariable name) :=
  inferInstanceAs (Decidable (_ ∧ _))

/-- A character that starts a name is no digit; witness: their ranges do not meet. -/
theorem isDigit_of_startsName {c : Char} (starts : startsName c = true)
    : isDigit c = false := by
  refine Bool.eq_false_iff.mpr (fun digit => ?_)
  simp only [startsName, isLetter, isDigit, Bool.and_eq_true, Bool.or_eq_true, decide_eq_true_eq,
    beq_iff_eq, Char.le_def, UInt32.le_iff_toNat_le] at starts digit
  rcases starts with (small | large) | rfl
  · have low : 'a'.val.toNat = 97 := rfl
    have high : '9'.val.toNat = 57 := rfl
    omega
  · have low : 'A'.val.toNat = 65 := rfl
    have high : '9'.val.toNat = 57 := rfl
    omega
  · exact absurd digit.2 (by decide)

theorem dropWhile_isSpace_name {c : Char} {rest : List Char} (starts : startsName c = true)
    : (c :: rest).dropWhile isSpace = c :: rest := by
  have shows : isSpace c = false := by
    simp only [isSpace, Bool.or_eq_false_iff, beq_eq_false_iff_ne]
    exact ⟨⟨⟨ne_of_kind starts rfl, ne_of_kind starts rfl⟩,
      ne_of_kind starts rfl⟩, ne_of_kind starts rfl⟩
  rw [List.dropWhile_cons, shows]
  rfl

/-- An identifier is read up to a character that is no part of it. -/
theorem identifier_append {name rest : List Char} (named : isName name = true)
    (stops : Stops continuesName rest)
    : identifier (name ++ rest) = .ok (.ofList name, rest) := by
  have found : ofOption name? (name ++ rest) = .ok (name, rest) := by
    simp only [ofOption, name?_append named stops]
  rw [identifier, bind_of_ok found]
  rfl

/-- A digit starts no name. -/
theorem startsName_of_isDigit {c : Char} (digit : isDigit c = true) : startsName c = false :=
  Bool.eq_false_iff.mpr (fun starts => Bool.noConfusion (digit.symm.trans
    (isDigit_of_startsName starts)))

-----------------------------------------------------------------------------------------
-- What is tried before a name does not read it
-----------------------------------------------------------------------------------------

/-- A name is no numeral: it starts with neither a digit nor a point. -/
theorem numeral_of_startsName {c : Char} {rest : List Char} (starts : startsName c = true)
    : numeral (c :: rest) = .error (c :: rest) := by
  have point : c ≠ '.' := ne_of_kind starts rfl
  refine bind_of_error ?_
  have none : Decimal.Numeral.read? (c :: rest) = none := by
    simp [Decimal.Numeral.read?, Decimal.digitRun, isDigit_of_startsName starts, point]
  simp [ofOption, none]

/-- A name is no string: it starts with no quote. -/
theorem stringLiteral_of_startsName {c : Char} {rest : List Char} (starts : startsName c = true)
    : stringLiteral (c :: rest) = .error (c :: rest) := by
  have single : c ≠ '\'' := ne_of_kind starts rfl
  have double : c ≠ '"' := ne_of_kind starts rfl
  refine bind_of_error ?_
  simp [ofOption, string?, single, double]

-----------------------------------------------------------------------------------------
-- Names as whole texts
-----------------------------------------------------------------------------------------

/-- A character of a name nests nothing and ends a run of signs. -/
theorem stepOutside_continuesName {c : Char} (continues : continuesName c = true)
    (signs deepest : Nat) (previous : Char)
    : Nesting.stepOutside ⟨0, signs, 0, deepest, none, false, previous⟩ c
        = ⟨0, 0, 0, deepest, none, false, c⟩ := by
  have apart (other : Char) (h : continuesName other = false) : c ≠ other :=
    ne_of_kind continues h
  have shows : isBlank c = false := isBlank_of_isBare (isBare_of_continuesName continues)
  simp [Nesting.stepOutside, Literal.opensBracket, Literal.isQuote, shows, apart '[' rfl,
    apart '(' rfl, apart '\x7b' rfl, apart '^' rfl, apart '*' rfl, apart '+' rfl, apart '-' rfl,
    apart '\'' rfl, apart '"' rfl]

/-- Nothing in a name is nested, by induction on it. -/
theorem foldl_step_name {name : List Char} (continues : ∀ c ∈ name, continuesName c = true)
    (signs deepest : Nat) (previous : Char)
    : ∃ behind last,
        name.foldl Nesting.step ⟨0, signs, 0, deepest, none, false, previous⟩
          = ⟨0, behind, 0, deepest, none, false, last⟩ := by
  induction name generalizing signs previous with
  | nil => exact ⟨signs, previous, rfl⟩
  | cons c rest ih =>
      obtain ⟨first, others⟩ := List.forall_mem_cons.mp continues
      rw [List.foldl_cons, Nesting.step, stepOutside_continuesName first]
      exact ih others 0 c

theorem nestingDepth_name {name : List Char} (continues : ∀ c ∈ name, continuesName c = true)
    : nestingDepth name = 0 := by
  obtain ⟨_, _, fold⟩ := foldl_step_name continues 0 0 ' '
  exact congrArg Nesting.deepest fold

theorem ofName_of_notTruth {name : String} (noTruth : name ∉ ["True", "true", "False", "false"])
    : ofName name = .ident name := by
  simp only [List.mem_cons, List.not_mem_nil, or_false, not_or] at noTruth
  obtain ⟨upperTrue, lowerTrue, upperFalse, lowerFalse⟩ := noTruth
  unfold ofName
  split
  · exact absurd rfl upperTrue
  · exact absurd rfl lowerTrue
  · exact absurd rfl upperFalse
  · exact absurd rfl lowerFalse
  · rfl

end QuizVariants.Expr
