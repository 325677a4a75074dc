import QuizVariants.Proofs.Expr.Identifier

/-! Spellings of expressions.
A text spells an expression when it writes the tokens of that expression with any spaces between
them, and with parentheses at least where an operand is looser than its place allows.
-/

namespace QuizVariants

/-- The sign of an operand. -/
def UnaryOp.mark : UnaryOp → Char
  | .neg => '-'
  | .pos => '+'

namespace Expr

open QuizVariants.Decimal
open QuizVariants.Text
open QuizVariants.Parser

/-- How tight an expression holds together, from loose to tight. -/
inductive Level where
  | comparison
  | sum
  | product
  | signed
  | power
  | subscripted
  | atom
  deriving Repr, DecidableEq

/-- The next tighter level; nothing is tighter than an atom. -/
def Level.tighter : Level → Level
  | .comparison => .sum
  | .sum => .product
  | .product => .signed
  | .signed => .power
  | .power => .subscripted
  | .subscripted => .atom
  | .atom => .atom

/-- What a text can spell: an expression that fits in a place for some level, or what stands
between brackets. The contents of brackets may end with a comma. -/
inductive Phrase where
  | expression (level : Level) (e : Expr)
  | items (values : List Expr)
  | contents (values : List Expr) (comma : Bool)
  | argument (value : Argument)
  | arguments (values : List Argument)

/-- What stands between the marks of a string. A backslash in front of a backslash or a quote
writes that character, and in front of any other character it writes itself. -/
inductive Quotes (mark : Char) : List Char → List Char → Prop where
  | nil : Quotes mark [] []
  | plain {c : Char} {content body : List Char} (apart : c ≠ mark ∧ c ≠ '\\')
    (more : Quotes mark content body)
    : Quotes mark (c :: content) (c :: body)
  | escaped {c : Char} {content body : List Char} (special : c = '\\' ∨ c = '\'' ∨ c = '"')
    (more : Quotes mark content body)
    : Quotes mark (c :: content) ('\\' :: c :: body)
  | kept {c : Char} {content body : List Char} (plain : ¬ (c = '\\' ∨ c = '\'' ∨ c = '"'))
    (more : Quotes mark content body)
    : Quotes mark ('\\' :: c :: content) ('\\' :: c :: body)

/-- The words for truth values. -/
def truthWords : List (String × Bool) :=
  [("True", true), ("true", true), ("False", false), ("false", false)]

/-- The spellings of expressions. Sums and products go on to the right, so their last operand has
to be tighter; powers nest in their exponents, which may have signs; comparisons do not chain. -/
inductive Spells : Phrase → List Char → Prop where
  | spaced {level : Level} {e : Expr} {before text after : List Char} (left : IsGap before)
    (right : IsGap after) (expression : Spells (.expression level e) text)
    : Spells (.expression level e) (before ++ (text ++ after))
  | tighter {level : Level} {e : Expr} {text : List Char}
    (expression : Spells (.expression level.tighter e) text)
    : Spells (.expression level e) text
  | number {digits : List Char} {n : Nat} (some : digits ≠ [])
    (all : ∀ c ∈ digits, isDigit c = true) (value : naturalOf digits = n) (fits : Fits n)
    : Spells (.expression .atom (.number (.integer n fits))) digits
  | string {mark : Char} {content body : List Char} (quote : mark = '\'' ∨ mark = '"')
    (quotes : Quotes mark content body)
    : Spells (.expression .atom (.string (.ofList content))) (mark :: (body ++ [mark]))
  | bool {word : String} {value : Bool}
    (truth : (word, value) ∈ truthWords)
    : Spells (.expression .atom (.bool value)) word.toList
  | name {name : String} (readable : IsVariable name)
    : Spells (.expression .atom (.ident name)) name.toList
  | group {e : Expr} {text : List Char} (inside : Spells (.expression .comparison e) text)
    : Spells (.expression .atom e) ('(' :: (text ++ [')']))
  | tuple {values : List Expr} {comma : Bool} {text : List Char}
    (inside : Spells (.contents values comma) text) (several : values.length ≠ 1 ∨ comma = true)
    : Spells (.expression .atom (.list values)) ('(' :: (text ++ [')']))
  | list {values : List Expr} {comma : Bool} {text : List Char}
    (inside : Spells (.contents values comma) text)
    : Spells (.expression .atom (.list values)) ('[' :: (text ++ [']']))
  | set {values : List Expr} {comma : Bool} {text : List Char}
    (inside : Spells (.contents values comma) text)
    : Spells (.expression .atom (.set values)) ('{' :: (text ++ ['}']))
  | callNothing {function : String} {between inside : List Char}
    (named : isName function.toList = true) (gap : IsGap between) (empty : IsGap inside)
    : Spells (.expression .atom (.call function [] []))
        (function.toList ++ (between ++ '(' :: (inside ++ [')'])))
  | call {function : String} {values : List Argument} {between text : List Char}
    (named : isName function.toList = true) (gap : IsGap between)
    (inside : Spells (.arguments values) text)
    : Spells (.expression .atom (ofCall function values))
        (function.toList ++ (between ++ '(' :: (text ++ [')'])))
  | index {target position : Expr} {first second : List Char}
    (left : Spells (.expression .subscripted target) first)
    (right : Spells (.expression .comparison position) second)
    : Spells (.expression .subscripted (.index target position)) (first ++ '[' :: (second ++ [']']))
  | power {base exponent : Expr} {mark first second : List Char}
    (raises : mark = ['*', '*'] ∨ mark = ['^']) (left : Spells (.expression .subscripted base) first)
    (right : Spells (.expression .signed exponent) second)
    : Spells (.expression .power (.binary (.arithmetic .pow) base exponent))
        (first ++ (mark ++ second))
  | sign {op : UnaryOp} {e : Expr} {text : List Char}
    (operand : Spells (.expression .signed e) text)
    : Spells (.expression .signed (.unary op e)) (op.mark :: text)
  | product {op : ArithmeticOp} {left right : Expr} {first second : List Char}
    (factor : op = .mul ∨ op = .div ∨ op = .rem)
    (before : Spells (.expression .product left) first)
    (after : Spells (.expression .signed right) second)
    : Spells (.expression .product (.binary (.arithmetic op) left right))
        (first ++ (op.symbol.toList ++ second))
  | sum {op : ArithmeticOp} {left right : Expr} {first second : List Char}
    (summand : op = .add ∨ op = .sub)
    (before : Spells (.expression .sum left) first)
    (after : Spells (.expression .product right) second)
    : Spells (.expression .sum (.binary (.arithmetic op) left right))
        (first ++ (op.symbol.toList ++ second))
  | comparison {op : ComparisonOp} {left right : Expr} {first second : List Char}
    (before : Spells (.expression .sum left) first)
    (after : Spells (.expression .sum right) second)
    : Spells (.expression .comparison (.binary (.comparison op) left right))
        (first ++ (op.symbol.toList ++ second))
  | item {e : Expr} {text : List Char} (value : Spells (.expression .comparison e) text)
    : Spells (.items [e]) text
  | moreItems {e : Expr} {es : List Expr} {text rest : List Char}
    (value : Spells (.expression .comparison e) text) (others : Spells (.items es) rest)
    : Spells (.items (e :: es)) (text ++ ',' :: rest)
  | nothing {gap : List Char} (empty : IsGap gap) : Spells (.contents [] false) gap
  | contents {es : List Expr} {text : List Char} (inside : Spells (.items es) text)
    : Spells (.contents es false) text
  | trailing {es : List Expr} {text gap : List Char} (inside : Spells (.items es) text)
    (empty : IsGap gap)
    : Spells (.contents es true) (text ++ ',' :: gap)
  | positional {e : Expr} {text : List Char} (value : Spells (.expression .comparison e) text)
    : Spells (.argument (.positional e)) text
  | keyword {name : String} {e : Expr} {before between text : List Char} (left : IsGap before)
    (named : isName name.toList = true) (right : IsGap between)
    (value : Spells (.expression .comparison e) text)
    : Spells (.argument (.keyword name e)) (before ++ (name.toList ++ (between ++ '=' :: text)))
  | lastArgument {value : Argument} {text : List Char} (argument : Spells (.argument value) text)
    : Spells (.arguments [value]) text
  | moreArguments {value : Argument} {values : List Argument} {text rest : List Char}
    (argument : Spells (.argument value) text) (others : Spells (.arguments values) rest)
    : Spells (.arguments (value :: values)) (text ++ ',' :: rest)

/-- Positional arguments may come before all keyword arguments of a call. -/
theorem ofCall_positional_keyword (function : String) (positional : List Expr)
    (keywords : List (String × Expr))
    : ofCall function (positional.map Argument.positional
          ++ keywords.map (fun keyword => Argument.keyword keyword.1 keyword.2))
        = .call function positional keywords := by
  simp [ofCall, Argument.positional?, Argument.keyword?, List.filterMap_append,
    List.filterMap_map, Function.comp_def]

/-- Words for truth values are names that are read as those values. -/
theorem named_of_truth {word : String} {value : Bool} (truth : (word, value) ∈ truthWords)
    : isName word.toList = true ∧ ofName word = .bool value := by
  simp only [truthWords, List.mem_cons, Prod.mk.injEq, List.not_mem_nil, or_false] at truth
  rcases truth with ⟨rfl, rfl⟩ | ⟨rfl, rfl⟩ | ⟨rfl, rfl⟩ | ⟨rfl, rfl⟩ <;> exact ⟨by decide, rfl⟩

/-- Atoms stand on every level. -/
theorem Spells.atomic {level : Level} {e : Expr} {text : List Char}
    (h : Spells (.expression .atom e) text)
    : Spells (.expression level e) text := by
  cases level with
  | atom => exact h
  | subscripted => exact .tighter h
  | power => exact .tighter (.tighter h)
  | signed => exact .tighter (.tighter (.tighter h))
  | product => exact .tighter (.tighter (.tighter (.tighter h)))
  | sum => exact .tighter (.tighter (.tighter (.tighter (.tighter h))))
  | comparison => exact .tighter (.tighter (.tighter (.tighter (.tighter (.tighter h)))))

/-- Everything may stand where the loosest level may. -/
theorem Spells.loosest {level : Level} {e : Expr} {text : List Char}
    (h : Spells (.expression level e) text)
    : Spells (.expression .comparison e) text := by
  cases level with
  | comparison => exact h
  | sum => exact .tighter h
  | product => exact .tighter (.tighter h)
  | signed => exact .tighter (.tighter (.tighter h))
  | power => exact .tighter (.tighter (.tighter (.tighter h)))
  | subscripted => exact .tighter (.tighter (.tighter (.tighter (.tighter h))))
  | atom => exact h.atomic

/-- Parentheses around anything make an atom. -/
theorem Spells.grouped {level : Level} {e : Expr} {text : List Char}
    (h : Spells (.expression level e) text)
    : Spells (.expression .atom e) ('(' :: (text ++ [')'])) :=
  .group h.loosest

-----------------------------------------------------------------------------------------
-- How spellings start
-----------------------------------------------------------------------------------------

/-- A character that may come first in an operand without signs. -/
def startsAtom (c : Char) : Bool :=
  continuesName c || c == '\'' || c == '"' || c == '(' || c == '[' || c == '{'

/-- Levels of expressions that no sign starts. -/
def Level.isUnsigned : Level → Bool
  | .power => true
  | .subscripted => true
  | .atom => true
  | _ => false

theorem Level.isUnsigned_tighter {level : Level} (h : level.isUnsigned = true)
    : level.tighter.isUnsigned = true := by
  cases level <;> first | rfl | exact nomatch h

theorem isSpace_of_isBare {c : Char} (bare : isBare c = true) : isSpace c = false := by
  simp only [isSpace, Bool.or_eq_false_iff, beq_eq_false_iff_ne]
  exact ⟨⟨⟨ne_of_kind bare rfl, ne_of_kind bare rfl⟩, ne_of_kind bare rfl⟩, ne_of_kind bare rfl⟩

theorem startsAtom_of_continuesName {c : Char} (h : continuesName c = true)
    : startsAtom c = true := by
  simp [startsAtom, h]

/-- A text starts an operand: behind its spaces there is a character that may come first in one, or
a sign where signs are allowed. -/
def StartsOperand (unsigned : Bool) (text : List Char) : Prop :=
  ∃ c rest, skipped text = c :: rest
    ∧ (startsAtom c = true ∨ unsigned = false ∧ (c = '-' ∨ c = '+'))

theorem StartsOperand.append {unsigned : Bool} {text : List Char}
    (h : StartsOperand unsigned text) (rest : List Char)
    : StartsOperand unsigned (text ++ rest) := by
  obtain ⟨c, more, first, starts⟩ := h
  exact ⟨c, more ++ rest, skipped_append_of_cons first rest, starts⟩

/-- Words and numbers start operands. -/
theorem StartsOperand.word {unsigned : Bool} {text : List Char} (some : text ≠ [])
    (continues : ∀ c ∈ text, continuesName c = true)
    : StartsOperand unsigned text := by
  cases text with
  | nil => exact absurd rfl some
  | cons c rest =>
      have first := continues c List.mem_cons_self
      exact ⟨c, rest, skipped_cons (isSpace_of_isBare (isBare_of_continuesName first)) rest,
        .inl (startsAtom_of_continuesName first)⟩

theorem StartsOperand.isName {unsigned : Bool} {name : List Char} (named : isName name = true)
    : StartsOperand unsigned name :=
  .word (by rintro rfl; exact nomatch named) (continuesName_of_isName named)

/-- A mark that opens a string or brackets starts an operand. -/
theorem StartsOperand.mark {unsigned : Bool} {c : Char} (shows : isSpace c = false)
    (starts : startsAtom c = true) (rest : List Char)
    : StartsOperand unsigned (c :: rest) :=
  ⟨c, rest, skipped_cons shows rest, .inl starts⟩

/-- Spellings start operands, by induction on them. -/
theorem Spells.startsOperand {level : Level} {e : Expr} {text : List Char}
    (h : Spells (.expression level e) text)
    : StartsOperand level.isUnsigned text := by
  generalize same : Phrase.expression level e = phrase at h
  induction h generalizing level e with
  | spaced left right expression ih =>
      obtain ⟨rfl, rfl⟩ := Phrase.expression.inj same
      obtain ⟨c, rest, first, starts⟩ := (ih rfl).append _
      exact ⟨c, rest, (skipped_append_of_isGap left _).trans first, starts⟩
  | @tighter tight e text expression ih =>
      obtain ⟨rfl, rfl⟩ := Phrase.expression.inj same
      obtain ⟨c, rest, first, starts⟩ := ih rfl
      refine ⟨c, rest, first, starts.imp_right fun signed => ⟨?_, signed.2⟩⟩
      exact Bool.eq_false_iff.mpr fun unsigned =>
        Bool.noConfusion ((Level.isUnsigned_tighter unsigned).symm.trans signed.1)
  | number some all =>
      exact .word some fun c member => by rw [continuesName, all c member, Bool.or_true]
  | string quote => rcases quote with rfl | rfl <;> exact .mark rfl rfl _
  | bool truth => exact .isName (named_of_truth truth).1
  | name readable => exact .isName readable.1
  | group | tuple | list | set => exact .mark rfl rfl _
  | callNothing named | call named => exact (StartsOperand.isName named).append _
  | index left right left_ih =>
      obtain ⟨rfl, rfl⟩ := Phrase.expression.inj same
      exact (left_ih rfl).append _
  | power raises left right left_ih =>
      obtain ⟨rfl, rfl⟩ := Phrase.expression.inj same
      exact (left_ih rfl).append _
  | @sign op =>
      obtain ⟨rfl, rfl⟩ := Phrase.expression.inj same
      cases op with
      | neg => exact ⟨'-', _, skipped_cons rfl _, .inr ⟨rfl, .inl rfl⟩⟩
      | pos => exact ⟨'+', _, skipped_cons rfl _, .inr ⟨rfl, .inr rfl⟩⟩
  | product factor before after ih | sum summand before after ih | comparison before after ih =>
      obtain ⟨rfl, rfl⟩ := Phrase.expression.inj same
      exact (ih rfl).append _
  | _ => cases same

end Expr

end QuizVariants
