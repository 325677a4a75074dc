import QuizVariants.Proofs.Expr.Spelling

/-! Operators.
What may follow an operand, and what the parsers of operators do with it: each of them reads its own
marks and refuses everything that follows a tighter operand.
-/

namespace QuizVariants.Expr

open QuizVariants.Decimal
open QuizVariants.Text
open QuizVariants.Parser

-----------------------------------------------------------------------------------------
-- What follows an operand
-----------------------------------------------------------------------------------------

/-- What may follow an operand: the end, a closing mark or an operator. Operators are ranked from
comparisons, which come first, over sums, products and powers up to subscripts, and those up to
the limit are allowed. -/
inductive Follows (limit : Nat) : List Char → Prop where
  | nil : Follows limit []
  | close {c : Char} (closes : c = ')' ∨ c = ']' ∨ c = '}' ∨ c = ',') (rest : List Char)
    : Follows limit (c :: rest)
  | comparison (op : ComparisonOp) (rest : List Char) (within : 1 ≤ limit)
    : Follows limit (op.symbol.toList ++ rest)
  | sum {op : ArithmeticOp} (summand : op = .add ∨ op = .sub) (rest : List Char)
    (within : 2 ≤ limit)
    : Follows limit (op.symbol.toList ++ rest)
  | product {op : ArithmeticOp} {rest : List Char} (factor : op = .mul ∨ op = .div ∨ op = .rem)
    (single : rest.head? ≠ some '*') (within : 3 ≤ limit)
    : Follows limit (op.symbol.toList ++ rest)
  | power {mark : List Char} (raises : mark = ['*', '*'] ∨ mark = ['^']) (rest : List Char)
    (within : 4 ≤ limit)
    : Follows limit (mark ++ rest)
  | subscript (rest : List Char) (within : 5 ≤ limit) : Follows limit ('[' :: rest)

theorem Follows.mono {limit more : Nat} {rest : List Char} (h : Follows limit rest)
    (le : limit ≤ more)
    : Follows more rest := by
  cases h with
  | nil => exact .nil
  | close closes => exact .close closes _
  | comparison op rest within => exact .comparison op rest (within.trans le)
  | sum summand rest within => exact .sum summand rest (within.trans le)
  | product factor single within => exact .product factor single (within.trans le)
  | power raises rest within => exact .power raises rest (within.trans le)
  | subscript rest within => exact .subscript rest (within.trans le)

/-- Nothing that follows an operand goes on with a word or a number, or opens brackets. -/
theorem Follows.exists_first {limit : Nat} {c : Char} {rest : List Char}
    (h : Follows limit (c :: rest))
    : isSpace c = false ∧ continuesName c = false ∧ c ≠ '.' ∧ c ≠ '(' := by
  generalize same : c :: rest = text at h
  cases h with
  | nil => exact nomatch same
  | close closes =>
      obtain ⟨rfl, rfl⟩ := List.cons.inj same
      rcases closes with rfl | rfl | rfl | rfl <;> decide
  | comparison op =>
      cases op <;> obtain ⟨rfl, rfl⟩ := List.cons.inj same <;> decide
  | sum summand =>
      rcases summand with rfl | rfl <;> obtain ⟨rfl, rfl⟩ := List.cons.inj same <;> decide
  | product factor =>
      rcases factor with rfl | rfl | rfl <;> obtain ⟨rfl, rfl⟩ := List.cons.inj same <;> decide
  | power raises =>
      rcases raises with rfl | rfl <;> obtain ⟨rfl, rfl⟩ := List.cons.inj same <;> decide
  | subscript =>
      obtain ⟨rfl, rfl⟩ := List.cons.inj same
      decide

theorem Follows.skipped_eq {limit : Nat} {rest : List Char} (h : Follows limit rest)
    : skipped rest = rest := by
  cases rest with
  | nil => rfl
  | cons c rest => exact skipped_cons h.exists_first.1 rest

theorem Follows.skip {limit : Nat} {rest : List Char} (h : Follows limit rest)
    : Follows limit (skipped rest) := by
  rwa [h.skipped_eq]

/-- A word or a number ends in front of what follows it, spaces or not. -/
theorem Follows.stops {limit : Nat} {rest : List Char} (h : Follows limit (skipped rest))
    : Stops (fun c => continuesName c || c == '.') rest := by
  cases rest with
  | nil => exact stops_nil _
  | cons c rest =>
      rw [stops_cons]
      cases space : isSpace c with
      | true =>
          simp only [isSpace, Bool.or_eq_true, beq_iff_eq] at space
          rcases space with ((rfl | rfl) | rfl) | rfl <;> rfl
      | false =>
          rw [skipped_cons space] at h
          obtain ⟨_, continues, point, _⟩ := h.exists_first
          simp [continues, point]

/-- The operators of sums and of products. -/
def summandOp : Parser ArithmeticOp :=
  orElse (operator "+" .add) (operator "-" .sub)

def factorOp : Parser ArithmeticOp :=
  choice [times, operator "/" .div] (operator "%" .rem)

def powerMark : Parser Unit :=
  orElse (symbol "**") (symbol "^")

theorem Follows.comparisonOp {rest : List Char} (h : Follows 0 rest)
    : ∃ stopped, comparisonOp rest = .error stopped := by
  cases h with
  | nil => exact ⟨_, rfl⟩
  | close closes => rcases closes with rfl | rfl | rfl | rfl <;> exact ⟨_, rfl⟩
  | comparison _ _ within | sum _ _ within | product _ _ within | power _ _ within
  | subscript _ within => omega

theorem Follows.summandOp {rest : List Char} (h : Follows 1 rest)
    : ∃ stopped, summandOp rest = .error stopped := by
  cases h with
  | nil => exact ⟨_, rfl⟩
  | close closes => rcases closes with rfl | rfl | rfl | rfl <;> exact ⟨_, rfl⟩
  | comparison op => cases op <;> exact ⟨_, rfl⟩
  | sum _ _ within | product _ _ within | power _ _ within | subscript _ within => omega

theorem Follows.factorOp {rest : List Char} (h : Follows 2 rest)
    : ∃ stopped, factorOp rest = .error stopped := by
  cases h with
  | nil => exact ⟨_, rfl⟩
  | close closes => rcases closes with rfl | rfl | rfl | rfl <;> exact ⟨_, rfl⟩
  | comparison op => cases op <;> exact ⟨_, rfl⟩
  | sum summand => rcases summand with rfl | rfl <;> exact ⟨_, rfl⟩
  | product _ _ within | power _ _ within | subscript _ within => omega

/-- A mark of two characters needs both of them. -/
theorem exactText_pair {first second : Char} {rest : List Char}
    (single : rest.head? ≠ some second)
    : exactText [first, second] (first :: rest) = .error (first :: rest) := by
  cases rest with
  | nil => simp [exactText, after?]
  | cons other rest =>
      have apart : second ≠ other := fun same => single (congrArg some same.symm)
      simp [exactText, after?, apart]

theorem Follows.powerMark {rest : List Char} (h : Follows 3 rest)
    : ∃ stopped, powerMark rest = .error stopped := by
  cases h with
  | nil => exact ⟨_, rfl⟩
  | close closes => rcases closes with rfl | rfl | rfl | rfl <;> exact ⟨_, rfl⟩
  | comparison op => cases op <;> exact ⟨_, rfl⟩
  | sum summand => rcases summand with rfl | rfl <;> exact ⟨_, rfl⟩
  | product factor single =>
      rcases factor with rfl | rfl | rfl
      -- A single star is no power; the character behind it decides.
      · exact ⟨_, orElse_of_error (token_of_error (exactText_pair single))⟩
      · exact ⟨_, rfl⟩
      · exact ⟨_, rfl⟩
  | power _ _ within | subscript _ within => omega

theorem Follows.position {rest : List Char} (h : Follows 4 rest) (expression : Parser Expr)
    : ∃ stopped, Expr.subscript expression rest = .error stopped := by
  cases h with
  | nil => exact ⟨_, rfl⟩
  | close closes => rcases closes with rfl | rfl | rfl | rfl <;> exact ⟨_, rfl⟩
  | comparison op => cases op <;> exact ⟨_, rfl⟩
  | sum summand => rcases summand with rfl | rfl <;> exact ⟨_, rfl⟩
  | product factor => rcases factor with rfl | rfl | rfl <;> exact ⟨_, rfl⟩
  | power raises => rcases raises with rfl | rfl <;> exact ⟨_, rfl⟩
  | subscript _ within => omega

-----------------------------------------------------------------------------------------
-- Spaces in front of every level
-----------------------------------------------------------------------------------------

theorem skipsSpaces_power (operand : Parser Expr) : SkipsSpaces (power operand) :=
  ((SkipsSpaces.token _).bind _).bind _

theorem skipsSpaces_signed (bound : Nat) : SkipsSpaces (signed (bound + 1)) :=
  (((SkipsSpaces.token _).bind _).orElse (((SkipsSpaces.token _).bind _).orElse
    (skipsSpaces_power _)))

theorem skipsSpaces_product (bound : Nat) : SkipsSpaces (product (signed (bound + 1))) :=
  (skipsSpaces_signed bound).bind _

theorem skipsSpaces_sum (bound : Nat) : SkipsSpaces (sum (signed (bound + 1))) :=
  (skipsSpaces_product bound).bind _

theorem skipsSpaces_comparison (bound : Nat) : SkipsSpaces (comparison (signed (bound + 1))) :=
  (skipsSpaces_sum bound).bind _

theorem skipsSpaces_keywordArgument (expression : Parser Expr)
    : SkipsSpaces (keywordArgument expression) :=
  (SkipsSpaces.token _).bind _

-----------------------------------------------------------------------------------------
-- Operators
-----------------------------------------------------------------------------------------

/-- Neither a star nor an equals sign starts an operand. -/
theorem StartsOperand.head?_ne {unsigned : Bool} {text : List Char}
    (h : StartsOperand unsigned text) {c : Char} (apart : c = '*' ∨ c = '=')
    : text.head? ≠ some c := by
  intro first
  obtain ⟨rest, rfl⟩ := List.head?_eq_some_iff.mp first
  obtain ⟨other, more, shown, starts⟩ := h
  have shows : isSpace c = false := by rcases apart with rfl | rfl <;> rfl
  obtain ⟨rfl, rfl⟩ := List.cons.inj ((skipped_cons shows rest).symm.trans shown)
  rcases apart with rfl | rfl <;> simp +decide at starts

theorem summandOp_append {op : ArithmeticOp} (summand : op = .add ∨ op = .sub)
    (rest : List Char)
    : summandOp (op.symbol.toList ++ rest) = .ok (op, skipped rest) := by
  rcases summand with rfl | rfl <;> rfl

theorem factorOp_append {op : ArithmeticOp} (factor : op = .mul ∨ op = .div ∨ op = .rem)
    {rest : List Char} (single : rest.head? ≠ some '*')
    : factorOp (op.symbol.toList ++ rest) = .ok (op, skipped rest) := by
  rcases factor with rfl | rfl | rfl
  · have star : (do
        char '*'
        notBefore '*') ('*' :: rest) = .ok ((), rest) := by
      rw [bind_of_ok (char_cons '*' rest), notBefore, if_neg single]
    exact orElse_of_ok (bind_of_ok (token_of_ok star))
  · rfl
  · rfl

theorem powerMark_append {mark : List Char} (raises : mark = ['*', '*'] ∨ mark = ['^'])
    (rest : List Char)
    : powerMark (mark ++ rest) = .ok ((), skipped rest) := by
  rcases raises with rfl | rfl <;> rfl

/-- The mark of a comparison is read; one that an equals sign could complete needs another
character behind it. -/
theorem comparisonOp_append (op : ComparisonOp) {rest : List Char}
    (single : rest.head? ≠ some '=')
    : comparisonOp (op.symbol.toList ++ rest) = .ok (op, skipped rest) := by
  have other {pattern : String} {op : ComparisonOp} {text : List Char}
      (h : symbol pattern text = .error text)
      : operator pattern op text = .error text :=
    bind_of_error h
  cases op with
  | eq | ne | le | ge => rfl
  | lt =>
      have longer : symbol "<=" ('<' :: rest) = .error ('<' :: rest) :=
        token_of_error (exactText_pair single)
      change comparisonOp ('<' :: rest) = _
      rw [comparisonOp, choice_cons, orElse_of_error (other rfl), choice_cons,
        orElse_of_error (other rfl), choice_cons, orElse_of_error (other longer)]
      rfl
  | gt =>
      have longer : symbol ">=" ('>' :: rest) = .error ('>' :: rest) :=
        token_of_error (exactText_pair single)
      change comparisonOp ('>' :: rest) = _
      rw [comparisonOp, choice_cons, orElse_of_error (other rfl), choice_cons,
        orElse_of_error (other rfl), choice_cons, orElse_of_error (other rfl), choice_cons,
        orElse_of_error (other longer)]
      rfl

-----------------------------------------------------------------------------------------
-- Chains of operations
-----------------------------------------------------------------------------------------

/-- An operator and its right operand. -/
def operation (op : Parser ArithmeticOp) (operand : Parser Expr)
    : Parser (ArithmeticOp × Expr) := do
  let op ← op
  let right ← operand
  return (op, right)

/-- Operations one after the other, from the left. -/
def chained (first : Expr) (operations : List (ArithmeticOp × Expr)) : Expr :=
  operations.foldl (fun left pair => .binary (.arithmetic pair.1) left pair.2) first

theorem leftAssociative_of_ok {op : Parser ArithmeticOp} {operand : Parser Expr} {first : Expr}
    {text rest : List Char} (h : operand text = .ok (first, rest))
    : leftAssociative op operand text
        = .ok ((manyFrom (operation op operand) rest).map (chained first) id) := by
  rw [leftAssociative, bind_of_ok h]
  rfl

theorem operation_of_ok {op : Parser ArithmeticOp} {operand : Parser Expr} {mark : ArithmeticOp}
    {right : Expr} {text between rest : List Char} (first : op text = .ok (mark, between))
    (second : operand between = .ok (right, rest))
    : operation op operand text = .ok ((mark, right), rest) := by
  rw [operation, bind_of_ok first, bind_of_ok second]
  rfl

theorem manyFrom_operation_of_error {op : Parser ArithmeticOp} {operand : Parser Expr}
    {text : List Char} (h : ∃ stopped, op text = .error stopped)
    : manyFrom (operation op operand) text = ([], text) := by
  obtain ⟨stopped, none⟩ := h
  exact manyFrom_of_error (bind_of_error none)

end QuizVariants.Expr
