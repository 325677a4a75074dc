import Mathlib.Algebra.Order.Field.Rat
import Mathlib.Algebra.Ring.Rat
import QuizVariants.Proofs.Decimal.Digits
import QuizVariants.Proofs.Except
import QuizVariants.Proofs.Expr.Identifier

/-! The reading of markup.
Markup of arithmetic denotes a rational number under a valuation of its symbols, by the usual rules
of precedence. Main statement: no markup denotes two numbers, since a reader from left to right
finds the number that it denotes.
-/

namespace QuizVariants.Algebra

open QuizVariants.Decimal
open QuizVariants.Parser
open QuizVariants.Text

-----------------------------------------------------------------------------------------
-- What markup denotes
-----------------------------------------------------------------------------------------

/-- The kinds of markup, from loose to tight; a term is a product that minuses may lead. -/
inductive Part where
  | sum
  | term
  | product
  | power
  | atom
  deriving Repr, DecidableEq

/-- The marks of a fraction: in front of its top, between its parts and behind its bottom. -/
def overMark : List Char := ['\\', 'f', 'r', 'a', 'c', '{']

def underMark : List Char := ['}', '{']

def groupMark : List Char := ['\\', 'l', 'e', 'f', 't', '(']

def groupEnd : List Char := ['\\', 'r', 'i', 'g', 'h', 't', ')']

def powerMark : List Char := ['^', '{']

/-- What a text denotes as markup of some kind. A sum goes on with one term after the other, and
a product with one factor after the other. -/
inductive Denotes (valueOf : String → ℚ) : Part → List Char → ℚ → Prop where
  | symbol {name : List Char} (named : isName name = true)
    : Denotes valueOf .atom name (valueOf (.ofList name))
  | natural (n : Nat) : Denotes valueOf .atom (digitsOf n) n
  | fraction {top bottom : List Char} {x y : ℚ} (upper : Denotes valueOf .sum top x)
    (lower : Denotes valueOf .sum bottom y)
    : Denotes valueOf .atom (overMark ++ (top ++ (underMark ++ (bottom ++ ['}'])))) (x / y)
  | group {inner : List Char} {x : ℚ} (inside : Denotes valueOf .sum inner x)
    : Denotes valueOf .atom (groupMark ++ (inner ++ groupEnd)) x
  | base {text : List Char} {x : ℚ} (atom : Denotes valueOf .atom text x)
    : Denotes valueOf .power text x
  | power {base exponent : List Char} {x : ℚ} {k : ℤ} (atom : Denotes valueOf .atom base x)
    (raised : Denotes valueOf .sum exponent k)
    : Denotes valueOf .power (base ++ (powerMark ++ (exponent ++ ['}']))) (x ^ k)
  | factor {text : List Char} {x : ℚ} (power : Denotes valueOf .power text x)
    : Denotes valueOf .product text x
  | times {first second : List Char} {x y : ℚ} (product : Denotes valueOf .product first x)
    (power : Denotes valueOf .power second y)
    : Denotes valueOf .product (first ++ ' ' :: second) (x * y)
  | product {text : List Char} {x : ℚ} (product : Denotes valueOf .product text x)
    : Denotes valueOf .term text x
  | opposite {text : List Char} {x : ℚ} (term : Denotes valueOf .term text x)
    : Denotes valueOf .term ('-' :: ' ' :: text) (-x)
  | term {text : List Char} {x : ℚ} (term : Denotes valueOf .term text x)
    : Denotes valueOf .sum text x
  | negative (n : Nat) : Denotes valueOf .sum ('-' :: digitsOf n) (-n)
  | add {first second : List Char} {x y : ℚ} (sum : Denotes valueOf .sum first x)
    (term : Denotes valueOf .term second y)
    : Denotes valueOf .sum (first ++ ' ' :: '+' :: ' ' :: second) (x + y)
  | sub {first second : List Char} {x y : ℚ} (sum : Denotes valueOf .sum first x)
    (term : Denotes valueOf .term second y)
    : Denotes valueOf .sum (first ++ ' ' :: '-' :: ' ' :: second) (x - y)

variable {valueOf : String → ℚ}

/-- A product of products; by induction on the second one. -/
theorem Denotes.mul {first second : List Char} {x y : ℚ} (left : Denotes valueOf .product first x)
    (right : Denotes valueOf .product second y)
    : Denotes valueOf .product (first ++ ' ' :: second) (x * y) := by
  generalize kind : Part.product = part at right
  induction right with
  | factor power => exact .times left power
  | times product power ih =>
      rw [← List.cons_append, ← List.append_assoc, ← mul_assoc]
      exact .times (ih kind) power
  | _ => exact nomatch kind

/-- The minuses that lead a term lead all of a product; by induction on the term. -/
theorem Denotes.termMul {first second : List Char} {x y : ℚ} (left : Denotes valueOf .term first x)
    (right : Denotes valueOf .product second y)
    : Denotes valueOf .term (first ++ ' ' :: second) (x * y) := by
  generalize kind : Part.term = part at left
  induction left with
  | product product => exact .product (product.mul right)
  | opposite term ih =>
      rw [neg_mul]
      exact .opposite (ih kind)
  | _ => exact nomatch kind

/-- A sum of sums, by induction on the second one, which no minus leads. -/
theorem Denotes.addSum {first second : List Char} {x y : ℚ} (left : Denotes valueOf .sum first x)
    (right : Denotes valueOf .sum second y) (plain : second.head? ≠ some '-')
    : Denotes valueOf .sum (first ++ ' ' :: '+' :: ' ' :: second) (x + y) := by
  have start {text more : List Char} (plain : (text ++ more).head? ≠ some '-')
      : text.head? ≠ some '-' := by
    cases text with
    | nil => exact nofun
    | cons c text => exact plain
  generalize kind : Part.sum = part at right
  induction right with
  | term term => exact .add left term
  | negative n => exact absurd rfl plain
  | add sum term ih =>
      have longer := Denotes.add (ih (start plain) kind) term
      rw [← add_assoc]
      simpa only [List.append_assoc, List.cons_append] using longer
  | sub sum term ih =>
      have longer := Denotes.sub (ih (start plain) kind) term
      rw [← add_sub_assoc]
      simpa only [List.append_assoc, List.cons_append] using longer
  | _ => exact nomatch kind

-----------------------------------------------------------------------------------------
-- A reader of markup
-----------------------------------------------------------------------------------------

def readNatural : Parser ℚ :=
  fun text =>
    let (digits, rest) := digitRun text
    if digits.isEmpty then .error text else .ok (naturalOf digits, rest)

def readSymbol (valueOf : String → ℚ) : Parser ℚ := do
  return valueOf (← Expr.identifier)

def readFraction (sum : Parser ℚ) : Parser ℚ := do
  exactText overMark
  let top ← sum
  exactText underMark
  let bottom ← sum
  char '}'
  return top / bottom

def readGroup (sum : Parser ℚ) : Parser ℚ := do
  exactText groupMark
  let inside ← sum
  exactText groupEnd
  return inside

def readAtom (valueOf : String → ℚ) (sum : Parser ℚ) : Parser ℚ :=
  choice [readFraction sum, readGroup sum, readSymbol valueOf] readNatural

def readExponent (sum : Parser ℚ) : Parser ℚ := do
  exactText powerMark
  let exponent ← sum
  char '}'
  return exponent

def readPower (valueOf : String → ℚ) (sum : Parser ℚ) : Parser ℚ := do
  let base ← readAtom valueOf sum
  match ← optional (readExponent sum) with
  | some exponent => return base ^ exponent.num
  | none => return base

/-- A factor after another one. -/
def readFactor (valueOf : String → ℚ) (sum : Parser ℚ) : Parser ℚ := do
  char ' '
  readPower valueOf sum

def readProduct (valueOf : String → ℚ) (sum : Parser ℚ) : Parser ℚ := do
  let first ← readPower valueOf sum
  return (← many (readFactor valueOf sum)).foldl (· * ·) first

def readTerm (valueOf : String → ℚ) (sum : Parser ℚ) : Parser ℚ := do
  let minuses ← many (exactText ['-', ' '])
  return (-1) ^ minuses.length * (← readProduct valueOf sum)

/-- A term after another one, with its sign. -/
def readSummand (valueOf : String → ℚ) (sum : Parser ℚ) : Parser ℚ :=
  orElse
    (do
      exactText [' ', '+', ' ']
      readTerm valueOf sum)
    (do
      exactText [' ', '-', ' ']
      return -(← readTerm valueOf sum))

def readNegative : Parser ℚ := do
  char '-'
  return -(← readNatural)

/-- A sum whose parts nest at most `bound` deep. -/
def readSum (valueOf : String → ℚ) : (bound : Nat) → Parser ℚ
  | 0 => fail
  | bound + 1 => do
    let first ← orElse readNegative (readTerm valueOf (readSum valueOf bound))
    return (← many (readSummand valueOf (readSum valueOf bound))).foldl (· + ·) first

-----------------------------------------------------------------------------------------
-- Where the parts of markup end
-----------------------------------------------------------------------------------------

/-- What follows a factor continues neither a word nor a power. -/
def EndsFactor (rest : List Char) : Prop :=
  Stops (fun c => continuesName c || c == '^') rest

/-- A term ends with the markup, in front of a closing mark or in front of a sign. -/
inductive EndsTerm : List Char → Prop where
  | nil : EndsTerm []
  | close {c : Char} (close : c = '}' ∨ c = '\\') (rest : List Char) : EndsTerm (c :: rest)
  | sign {c : Char} (sign : c = '+' ∨ c = '-') (rest : List Char) : EndsTerm (' ' :: c :: rest)

theorem EndsFactor.stops {rest : List Char} (h : EndsFactor rest) : Stops continuesName rest :=
  fun c first => (Bool.or_eq_false_iff.mp (h c first)).1

theorem EndsTerm.endsFactor {rest : List Char} (h : EndsTerm rest) : EndsFactor rest := by
  cases h with
  | nil => exact stops_nil _
  | close close rest => rcases close with rfl | rfl <;> exact stops_cons.mpr rfl
  | sign sign rest => exact stops_cons.mpr rfl

/-- Products start with a character that shows and is no minus. -/
theorem Denotes.exists_head {valueOf : String → ℚ} {part : Part} {text : List Char} {x : ℚ}
    (h : Denotes valueOf part text x) (tight : part ≠ .sum ∧ part ≠ .term)
    : ∃ c rest, text = c :: rest ∧ c ≠ '-' ∧ isBlank c = false := by
  have word {c : Char} {rest : List Char} (continues : continuesName c = true)
      : ∃ first more, c :: rest = first :: more ∧ first ≠ '-' ∧ isBlank first = false :=
    ⟨c, rest, rfl, ne_of_kind continues rfl, isBlank_of_isBare (isBare_of_continuesName continues)⟩
  induction h with
  | @symbol name named =>
      cases name with
      | nil => exact absurd named Bool.false_ne_true
      | cons c rest => exact word (continuesName_of_isName named c List.mem_cons_self)
  | natural n =>
      obtain ⟨c, rest, same⟩ := List.exists_cons_of_ne_nil (digitsOf_ne_nil n)
      have digit : isDigit c = true := isDigit_of_mem_digitsOf (n := n) (by simp [same])
      rw [same]
      exact word (by rw [continuesName, digit, Bool.or_true])
  | fraction | group => exact ⟨_, _, rfl, by decide, by decide⟩
  | base _ ih | factor _ ih => exact ih (by decide)
  | power _ _ ih | times _ _ ih =>
      obtain ⟨c, rest, rfl, other⟩ := ih (by decide)
      exact ⟨c, _, rfl, other⟩
  | product | opposite => exact absurd rfl tight.2
  | term | negative | add | sub => exact absurd rfl tight.1

/-- All markup starts with a character that shows. -/
theorem Denotes.exists_shown {valueOf : String → ℚ} {part : Part} {text : List Char} {x : ℚ}
    (h : Denotes valueOf part text x)
    : ∃ c rest, text = c :: rest ∧ isBlank c = false := by
  by_cases tight : part ≠ .sum ∧ part ≠ .term
  · obtain ⟨c, rest, same, _, shows⟩ := h.exists_head tight
    exact ⟨c, rest, same, shows⟩
  · induction h with
    | product product =>
        obtain ⟨c, rest, same, _, shows⟩ := product.exists_head ⟨nofun, nofun⟩
        exact ⟨c, rest, same, shows⟩
    | opposite | negative => exact ⟨'-', _, rfl, by decide⟩
    | term _ ih => exact ih (by simp)
    | add _ _ ih | sub _ _ ih =>
        obtain ⟨c, rest, rfl, shows⟩ := ih (by simp)
        exact ⟨c, _, rfl, shows⟩
    | _ => exact absurd ⟨nofun, nofun⟩ tight

-----------------------------------------------------------------------------------------
-- The reader finds what markup denotes
-----------------------------------------------------------------------------------------

variable {valueOf : String → ℚ} {sum : Parser ℚ} {rest : List Char}

theorem readNatural_append (n : Nat) (stops : Stops isDigit rest)
    : readNatural (digitsOf n ++ rest) = .ok ((n : ℚ), rest) := by
  have digits : ∀ c ∈ digitsOf n, isDigit c = true := fun _ => isDigit_of_mem_digitsOf
  simp [readNatural, digitRun_append digits stops, digitsOf_ne_nil, naturalOf_digitsOf]

theorem readSymbol_append {name : List Char} (named : isName name = true)
    (stops : Stops continuesName rest)
    : readSymbol valueOf (name ++ rest) = .ok (valueOf (.ofList name), rest) := by
  rw [readSymbol, bind_of_ok (Expr.identifier_append named stops)]
  rfl

/-- Fractions and groups start with a backslash. -/
theorem readAtom_of_head {c : Char} {text : List Char} (apart : c ≠ '\\')
    : readAtom valueOf sum (c :: text) = orElse (readSymbol valueOf) readNatural (c :: text) := by
  have upper : readFraction sum (c :: text) = .error (c :: text) :=
    bind_of_error (exactText_of_head apart.symm _)
  have group : readGroup sum (c :: text) = .error (c :: text) :=
    bind_of_error (exactText_of_head apart.symm _)
  rw [readAtom, choice_cons, orElse_of_error upper, choice_cons, orElse_of_error group]
  rfl

theorem readAtom_symbol {name : List Char} (named : isName name = true)
    (stops : Stops continuesName rest)
    : readAtom valueOf sum (name ++ rest) = .ok (valueOf (.ofList name), rest) := by
  have read : readSymbol valueOf (name ++ rest) = .ok (valueOf (.ofList name), rest) :=
    readSymbol_append named stops
  cases name with
  | nil => exact nomatch named
  | cons c name =>
      have apart : c ≠ '\\' := ne_of_kind (Bool.and_eq_true_iff.mp named).1 rfl
      rw [List.cons_append, readAtom_of_head apart, ← List.cons_append, orElse_of_ok read]

theorem readAtom_natural (n : Nat) (stops : Stops continuesName rest)
    : readAtom valueOf sum (digitsOf n ++ rest) = .ok ((n : ℚ), rest) := by
  have read := readNatural_append n
    (fun c first => (Bool.or_eq_false_iff.mp (stops c first)).2)
  obtain ⟨c, digits, same⟩ := List.exists_cons_of_ne_nil (digitsOf_ne_nil n)
  have digit : isDigit c = true := isDigit_of_mem_digitsOf (n := n) (by simp [same])
  have apart : c ≠ '\\' := ne_of_kind digit rfl
  have unnamed : readSymbol valueOf (c :: (digits ++ rest)) = .error (c :: (digits ++ rest)) := by
    refine bind_of_error (bind_of_error ?_)
    simp [ofOption, name?, Expr.startsName_of_isDigit digit]
  rw [same, List.cons_append] at read ⊢
  rw [readAtom_of_head apart, orElse_of_error unnamed, read]

theorem readAtom_fraction {top bottom : List Char} {x y : ℚ}
    (upper : sum (top ++ (underMark ++ (bottom ++ '}' :: rest)))
      = .ok (x, underMark ++ (bottom ++ '}' :: rest)))
    (lower : sum (bottom ++ '}' :: rest) = .ok (y, '}' :: rest))
    : readAtom valueOf sum (overMark ++ (top ++ (underMark ++ (bottom ++ '}' :: rest))))
        = .ok (x / y, rest) := by
  have read : readFraction sum (overMark ++ (top ++ (underMark ++ (bottom ++ '}' :: rest))))
      = .ok (x / y, rest) := by
    rw [readFraction, bind_of_ok (exactText_append overMark _), bind_of_ok upper,
      bind_of_ok (exactText_append underMark _), bind_of_ok lower,
      bind_of_ok (char_cons '}' rest)]
    rfl
  rw [readAtom, choice_cons, orElse_of_ok read]

theorem readAtom_group {inner : List Char} {x : ℚ}
    (inside : sum (inner ++ (groupEnd ++ rest)) = .ok (x, groupEnd ++ rest))
    : readAtom valueOf sum (groupMark ++ (inner ++ (groupEnd ++ rest))) = .ok (x, rest) := by
  have read : readGroup sum (groupMark ++ (inner ++ (groupEnd ++ rest))) = .ok (x, rest) := by
    rw [readGroup, bind_of_ok (exactText_append groupMark _), bind_of_ok inside,
      bind_of_ok (exactText_append groupEnd rest)]
    rfl
  have other : readFraction sum (groupMark ++ (inner ++ (groupEnd ++ rest)))
      = .error (groupMark ++ (inner ++ (groupEnd ++ rest))) :=
    bind_of_error rfl
  rw [readAtom, choice_cons, orElse_of_error other, choice_cons, orElse_of_ok read]

/-- An atom is a power without exponent where no exponent follows. -/
theorem readPower_base {text : List Char} {x : ℚ}
    (atom : readAtom valueOf sum (text ++ rest) = .ok (x, rest)) (ends : EndsFactor rest)
    : readPower valueOf sum (text ++ rest) = .ok (x, rest) := by
  have none : readExponent sum rest = .error rest := by
    cases rest with
    | nil => exact bind_of_error rfl
    | cons c rest =>
        have apart : '^' ≠ c := by
          rintro rfl
          exact Bool.noConfusion (stops_cons.mp ends)
        exact bind_of_error (exactText_of_head apart _)
  rw [readPower, bind_of_ok atom, bind_of_ok (optional_of_error none)]
  rfl

theorem readPower_power {base exponent : List Char} {x : ℚ} {k : ℤ}
    (atom : readAtom valueOf sum (base ++ (powerMark ++ (exponent ++ '}' :: rest)))
      = .ok (x, powerMark ++ (exponent ++ '}' :: rest)))
    (raised : sum (exponent ++ '}' :: rest) = .ok ((k : ℚ), '}' :: rest))
    : readPower valueOf sum (base ++ (powerMark ++ (exponent ++ '}' :: rest)))
        = .ok (x ^ k, rest) := by
  have read : readExponent sum (powerMark ++ (exponent ++ '}' :: rest)) = .ok ((k : ℚ), rest) := by
    rw [readExponent, bind_of_ok (exactText_append powerMark _), bind_of_ok raised,
      bind_of_ok (char_cons '}' rest)]
    rfl
  rw [readPower, bind_of_ok atom, bind_of_ok (optional_of_ok read)]
  rfl

/-- The mark of an opposite. -/
def minusMark : List Char := ['-', ' ']

/-- A term is a product behind all minuses, each of which changes the sign. -/
theorem readTerm_eq (text : List Char)
    : readTerm valueOf sum text
      = (readProduct valueOf sum (manyFrom (exactText minusMark) text).2).map (fun read =>
          ((-1) ^ (manyFrom (exactText minusMark) text).1.length * read.1, read.2)) := by
  have minuses : many (exactText minusMark) text = .ok (manyFrom (exactText minusMark) text) := rfl
  rw [readTerm, ← minusMark, bind_of_ok minuses]
  cases product : readProduct valueOf sum (manyFrom (exactText minusMark) text).2 with
  | error stopped => exact bind_of_error product
  | ok read => exact bind_of_ok product

theorem readTerm_opposite {text : List Char} {x : ℚ}
    (h : readTerm valueOf sum text = .ok (x, rest))
    : readTerm valueOf sum ('-' :: ' ' :: text) = .ok (-x, rest) := by
  have mark : exactText minusMark ('-' :: ' ' :: text) = .ok ((), text) :=
    exactText_append minusMark text
  have step := manyFrom_of_ok mark (by simp only [List.length_cons]; omega)
  rw [readTerm_eq] at h
  obtain ⟨⟨y, after⟩, product, same⟩ := map_eq_ok_iff.mp h
  obtain ⟨rfl, rfl⟩ := Prod.mk.inj same
  rw [readTerm_eq, step, product]
  simp [Except.map, pow_succ]

theorem readTerm_product {c : Char} {text : List Char} {x : ℚ} (apart : c ≠ '-')
    (h : readProduct valueOf sum (c :: text) = .ok (x, rest))
    : readTerm valueOf sum (c :: text) = .ok (x, rest) := by
  have none : exactText minusMark (c :: text) = .error (c :: text) :=
    exactText_of_head apart.symm [' ']
  rw [readTerm_eq, manyFrom_of_error none, h]
  simp [Except.map]

/-- No factor follows the end of a term. -/
theorem EndsTerm.readFactor {rest : List Char} (ends : EndsTerm rest)
    : ∃ stopped, readFactor valueOf sum rest = .error stopped := by
  cases ends with
  | nil => exact ⟨_, bind_of_error rfl⟩
  | close close rest => rcases close with rfl | rfl <;> exact ⟨_, bind_of_error rfl⟩
  | sign sign rest =>
      have atom {c : Char} (sign : c = '+' ∨ c = '-')
          : readPower valueOf sum (c :: rest) = .error (c :: rest) := by
        rcases sign with rfl | rfl <;> exact bind_of_error rfl
      exact ⟨_, (bind_of_ok (char_cons ' ' _)).trans (atom sign)⟩

/-- No term follows a closing mark. -/
theorem readSummand_close {c : Char} (close : c = '}' ∨ c = '\\') (rest : List Char)
    : manyFrom (readSummand valueOf sum) (c :: rest) = ([], c :: rest) := by
  have none : readSummand valueOf sum (c :: rest) = .error (c :: rest) := by
    rcases close with rfl | rfl <;> rfl
  exact manyFrom_of_error none

theorem readSummand_plus {text : List Char} {x : ℚ}
    (term : readTerm valueOf sum text = .ok (x, rest))
    : readSummand valueOf sum (' ' :: '+' :: ' ' :: text) = .ok (x, rest) := by
  have mark : exactText [' ', '+', ' '] (' ' :: '+' :: ' ' :: text) = .ok ((), text) :=
    exactText_append [' ', '+', ' '] text
  exact orElse_of_ok ((bind_of_ok mark).trans term)

theorem readSummand_minus {text : List Char} {x : ℚ}
    (term : readTerm valueOf sum text = .ok (x, rest))
    : readSummand valueOf sum (' ' :: '-' :: ' ' :: text) = .ok (-x, rest) := by
  have mark : exactText [' ', '-', ' '] (' ' :: '-' :: ' ' :: text) = .ok ((), text) :=
    exactText_append [' ', '-', ' '] text
  have other {next : Unit → Parser ℚ}
      : (exactText [' ', '+', ' '] >>= next) (' ' :: '-' :: ' ' :: text)
        = .error (' ' :: '-' :: ' ' :: text) :=
    bind_of_error rfl
  rw [readSummand, orElse_of_error other, bind_of_ok mark, bind_of_ok term]
  rfl

-----------------------------------------------------------------------------------------
-- Each part of markup is read
-----------------------------------------------------------------------------------------

/-- The reader finds a number for markup of some kind, whatever follows: more factors go on with
the product and more terms with the sum. -/
def ReadsBack (valueOf : String → ℚ) (bound : Nat) : Part → List Char → ℚ → Prop
  | .atom, text, x => ∀ rest, Stops continuesName rest →
    readAtom valueOf (readSum valueOf bound) (text ++ rest) = .ok (x, rest)
  | .power, text, x => ∀ rest, EndsFactor rest →
    readPower valueOf (readSum valueOf bound) (text ++ rest) = .ok (x, rest)
  | .product, text, x => ∀ rest, EndsFactor rest →
    readProduct valueOf (readSum valueOf bound) (text ++ rest)
      = .ok ((manyFrom (readFactor valueOf (readSum valueOf bound)) rest).map
          (List.foldl (· * ·) x) id)
  | .term, text, x => ∀ rest, EndsTerm rest →
    readTerm valueOf (readSum valueOf bound) (text ++ rest) = .ok (x, rest)
  | .sum, text, x => ∀ rest, EndsTerm rest →
    readSum valueOf (bound + 1) (text ++ rest)
      = .ok ((manyFrom (readSummand valueOf (readSum valueOf bound)) rest).map
          (List.foldl (· + ·) x) id)

/-- A sum is read up to a closing mark. -/
theorem ReadsBack.closed {bound : Nat} {text : List Char} {x : ℚ}
    (h : ReadsBack valueOf bound .sum text x) {c : Char} (close : c = '}' ∨ c = '\\')
    (rest : List Char)
    : readSum valueOf (bound + 1) (text ++ c :: rest) = .ok (x, c :: rest) := by
  have read := h (c :: rest) (.close close rest)
  rwa [readSummand_close close] at read

/-- A number is found for the whole of a sum that starts with a term. -/
theorem readSum_of_start {bound : Nat} {text : List Char} {x : ℚ}
    (start : orElse readNegative (readTerm valueOf (readSum valueOf bound)) text = .ok (x, rest))
    : readSum valueOf (bound + 1) text
      = .ok ((manyFrom (readSummand valueOf (readSum valueOf bound)) rest).map
          (List.foldl (· + ·) x) id) := by
  rw [readSum, bind_of_ok start]
  rfl

/-- No attached minus leads a term. -/
theorem readNegative_term {text : List Char} {x : ℚ} (h : Denotes valueOf .term text x)
    (rest : List Char)
    : ∃ stopped, readNegative (text ++ rest) = .error stopped := by
  cases h with
  | product product =>
      obtain ⟨c, text, rfl, apart, _⟩ := product.exists_head ⟨nofun, nofun⟩
      exact ⟨_, bind_of_error (char_of_head apart.symm)⟩
  | opposite term => exact ⟨_, (bind_of_ok (char_cons '-' _)).trans (bind_of_error rfl)⟩

/-- A product goes on with the factor behind it. -/
theorem ReadsBack.times {bound : Nat} {first second : List Char} {x y : ℚ}
    (product : ReadsBack valueOf bound .product first x)
    (power : ReadsBack valueOf bound .power second y)
    : ReadsBack valueOf bound .product (first ++ ' ' :: second) (x * y) := by
  intro rest ends
  have next : readFactor valueOf (readSum valueOf bound) (' ' :: (second ++ rest))
      = .ok (y, rest) :=
    (bind_of_ok (char_cons ' ' _)).trans (power rest ends)
  have shorter : rest.length < (' ' :: (second ++ rest)).length := by
    simp only [List.length_cons, List.length_append]
    omega
  rw [List.append_assoc, List.cons_append, product _ (stops_cons.mpr rfl),
    manyFrom_of_ok next shorter]
  rfl

/-- A sum goes on with the term behind it, whose sign is read with it. -/
theorem ReadsBack.summand {bound : Nat} {first second : List Char} {x y : ℚ} {mark : Char}
    (sum : ReadsBack valueOf bound .sum first x) (sign : mark = '+' ∨ mark = '-')
    (term : ∀ rest, EndsTerm rest →
      readSummand valueOf (readSum valueOf bound) (' ' :: mark :: ' ' :: (second ++ rest))
        = .ok (y, rest))
    : ReadsBack valueOf bound .sum (first ++ ' ' :: mark :: ' ' :: second) (x + y) := by
  intro rest ends
  have shorter : rest.length < (' ' :: mark :: ' ' :: (second ++ rest)).length := by
    simp only [List.length_cons, List.length_append]
    omega
  simp only [List.append_assoc, List.cons_append]
  rw [sum _ (.sign sign _), manyFrom_of_ok (term rest ends) shorter]
  rfl

/-- A sum may start with an attached minus. -/
theorem ReadsBack.negative (bound n : Nat)
    : ReadsBack valueOf bound .sum ('-' :: digitsOf n) (-n) := by
  intro rest ends
  have digits : readNatural (digitsOf n ++ rest) = .ok ((n : ℚ), rest) :=
    readNatural_append n
      (fun c first => (Bool.or_eq_false_iff.mp (ends.endsFactor.stops c first)).2)
  have negated : readNegative ('-' :: (digitsOf n ++ rest)) = .ok (-(n : ℚ), rest) := by
    rw [readNegative, bind_of_ok (char_cons '-' _), bind_of_ok digits]
    rfl
  exact readSum_of_start (orElse_of_ok negated)

/-- The reader finds what markup denotes, by induction on why the markup denotes it; a bound as
long as the text leaves enough for everything inside. -/
theorem Denotes.readsBack {part : Part} {text : List Char} {x : ℚ}
    (h : Denotes valueOf part text x) {bound : Nat} (enough : text.length ≤ bound)
    : ReadsBack valueOf bound part text x := by
  induction h generalizing bound with
  | symbol named => exact fun rest stops => readAtom_symbol named stops
  | natural n => exact fun rest stops => readAtom_natural n stops
  | fraction upper lower upper_ih lower_ih =>
      intro rest stops
      simp only [List.length_append, overMark, List.length_cons] at enough
      obtain ⟨bound, rfl⟩ : ∃ inner, bound = inner + 1 := ⟨bound - 1, by omega⟩
      simp only [List.append_assoc, List.singleton_append]
      refine readAtom_fraction ?_ ?_
      · exact (upper_ih (by omega)).closed (.inl rfl) _
      · exact (lower_ih (by omega)).closed (.inl rfl) _
  | group inside ih =>
      intro rest stops
      simp only [List.length_append, groupMark, List.length_cons] at enough
      obtain ⟨bound, rfl⟩ : ∃ inner, bound = inner + 1 := ⟨bound - 1, by omega⟩
      simp only [List.append_assoc]
      exact readAtom_group ((ih (by omega)).closed (.inr rfl) _)
  | base atom ih => exact fun rest ends => readPower_base (ih enough rest ends.stops) ends
  | power atom raised ih raised_ih =>
      intro rest ends
      simp only [List.length_append, powerMark, List.length_cons] at enough
      obtain ⟨bound, rfl⟩ : ∃ inner, bound = inner + 1 := ⟨bound - 1, by omega⟩
      simp only [List.append_assoc, List.singleton_append]
      refine readPower_power ?_ ?_
      · exact ih (by omega) _ (stops_cons.mpr rfl)
      · exact (raised_ih (by omega)).closed (.inl rfl) _
  | factor power ih =>
      intro rest ends
      rw [readProduct, bind_of_ok (ih enough rest ends)]
      rfl
  | times product power ih power_ih =>
      simp only [List.length_append, List.length_cons] at enough
      exact (ih (by omega)).times (power_ih (by omega))
  | product product ih =>
      intro rest ends
      obtain ⟨c, text, rfl, apart, _⟩ := product.exists_head ⟨nofun, nofun⟩
      obtain ⟨stopped, none⟩ : ∃ stopped,
          readFactor valueOf (readSum valueOf bound) rest = .error stopped := ends.readFactor
      refine readTerm_product apart ?_
      have read := ih enough rest ends.endsFactor
      rwa [manyFrom_of_error none] at read
  | opposite term ih =>
      intro rest ends
      simp only [List.length_cons] at enough
      exact readTerm_opposite (ih (by omega) rest ends)
  | term term ih =>
      intro rest ends
      obtain ⟨stopped, apart⟩ := readNegative_term term rest
      exact readSum_of_start ((orElse_of_error apart).trans (ih enough rest ends))
  | negative n => exact .negative bound n
  | add sum term ih term_ih =>
      simp only [List.length_append, List.length_cons] at enough
      refine (ih (by omega)).summand (.inl rfl) (fun rest ends => ?_)
      exact readSummand_plus (term_ih (by omega) rest ends)
  | sub sum term ih term_ih =>
      simp only [List.length_append, List.length_cons] at enough
      rw [sub_eq_add_neg]
      refine (ih (by omega)).summand (.inr rfl) (fun rest ends => ?_)
      exact readSummand_minus (term_ih (by omega) rest ends)

/-- Markup denotes one number at most: the one that the reader finds. -/
theorem Denotes.unique {text : List Char} {x y : ℚ} (first : Denotes valueOf .sum text x)
    (second : Denotes valueOf .sum text y)
    : x = y := by
  have readFirst := first.readsBack (Nat.le_refl _) [] .nil
  have readSecond := second.readsBack (Nat.le_refl _) [] .nil
  rw [readFirst] at readSecond
  have none : manyFrom (readSummand valueOf (readSum valueOf text.length)) [] = ([], []) :=
    manyFrom_of_error rfl
  rw [none] at readSecond
  exact (Prod.mk.inj (Except.ok.inj readSecond)).1

end QuizVariants.Algebra
