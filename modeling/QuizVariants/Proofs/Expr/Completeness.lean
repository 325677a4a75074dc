import QuizVariants.Proofs.Expr.Atoms

/-! The parser accepts every spelling.
Every text that spells an expression and does not nest too deep is read as that expression. Main
idea: each level of the parser reads a spelling of its level up to what follows it, and chains go
on with whatever they still find there.
-/

namespace QuizVariants.Expr

open QuizVariants.Decimal
open QuizVariants.Text
open QuizVariants.Parser

variable {expression : Parser Expr} {rest : List Char} {bound : Nat}

-----------------------------------------------------------------------------------------
-- Keyword arguments
-----------------------------------------------------------------------------------------

/-- A keyword needs a name. -/
theorem keywordArgument_of_first {c : Char} {text : List Char} (shows : isSpace c = false)
    (starts : startsName c = false)
    : ∃ stopped, keywordArgument expression (c :: text) = .error stopped := by
  have none : identifier (c :: text) = .error (c :: text) := by
    refine bind_of_error ?_
    simp [ofOption, name?, starts]
  rw [← skipsSpaces_keywordArgument, skipped_cons shows]
  have start : identifier ((c :: text).dropWhile isSpace) = .error (c :: text) := by
    rw [← skipped, skipped_cons shows, none]
  exact ⟨_, bind_of_error (token_of_error start)⟩

theorem token_identifier {name : List Char} (named : isName name = true)
    (stops : Stops continuesName rest)
    : token identifier (name ++ rest) = .ok (.ofList name, skipped rest) := by
  have start : skipped (name ++ rest) = name ++ rest := by
    cases name with
    | nil => exact nomatch named
    | cons c name => exact dropWhile_isSpace_name (Bool.and_eq_true_iff.mp named).1
  refine token_of_ok ?_
  rw [← skipped, start]
  exact identifier_append named stops

/-- A keyword needs an equals sign behind its name, which is no half of a comparison. -/
theorem keywordArgument_of_name {name : List Char} (named : isName name = true)
    (stops : Stops continuesName rest)
    (double : ∀ more, skipped rest = '=' :: more → more.head? = some '=')
    : ∃ stopped, keywordArgument expression (name ++ rest) = .error stopped := by
  rw [keywordArgument, bind_of_ok (token_identifier named stops)]
  cases behind : skipped rest with
  | nil => exact ⟨_, bind_of_error rfl⟩
  | cons c more =>
      by_cases equals : c = '='
      · subst equals
        have other : notBefore '=' more = .error more := if_pos (double more behind)
        exact ⟨_, (bind_of_ok (char_cons '=' more)).trans (bind_of_error other)⟩
      · exact ⟨_, bind_of_error (char_of_head (Ne.symm equals))⟩

theorem Follows.equals {limit : Nat} {more : List Char} (h : Follows limit ('=' :: more))
    : more.head? = some '=' := by
  generalize same : '=' :: more = text at h
  cases h with
  | nil => exact nomatch same
  | close closes => rcases closes with rfl | rfl | rfl | rfl <;> exact nomatch same
  | comparison op =>
      cases op with
      | eq =>
          obtain ⟨_, rfl⟩ := List.cons.inj same
          rfl
      | ne | lt | le | gt | ge => exact nomatch same
  | sum summand => rcases summand with rfl | rfl <;> exact nomatch same
  | product factor => rcases factor with rfl | rfl | rfl <;> exact nomatch same
  | power raises => rcases raises with rfl | rfl <;> exact nomatch same
  | subscript => exact nomatch same

/-- No expression is a keyword with an equals sign, by induction on its spelling. -/
theorem Spells.keywordArgument {level : Level} {e : Expr} {text : List Char}
    (h : Spells (.expression level e) text) (expression : Parser Expr) (rest : List Char)
    (follows : Follows 5 (skipped rest))
    : ∃ stopped, Expr.keywordArgument expression (text ++ rest) = .error stopped := by
  generalize same : Phrase.expression level e = phrase at h
  induction h generalizing level e rest with
  | spaced left right _ ih =>
      obtain ⟨rfl, rfl⟩ := Phrase.expression.inj same
      rw [List.append_assoc, (skipsSpaces_keywordArgument _).gap left, List.append_assoc]
      refine ih _ ?_ rfl
      rwa [skipped_append_of_isGap right]
  | tighter _ ih =>
      obtain ⟨rfl, rfl⟩ := Phrase.expression.inj same
      exact ih rest follows rfl
  | @number digits n nonempty all =>
      cases digits with
      | nil => exact absurd rfl nonempty
      | cons c digits =>
          have digit := all c List.mem_cons_self
          exact keywordArgument_of_first (isSpace_of_isBare (isBare_of_isDigit digit))
            (startsName_of_isDigit digit)
  | string quote => rcases quote with rfl | rfl <;> exact keywordArgument_of_first rfl rfl
  | bool truth =>
      exact keywordArgument_of_name (named_of_truth truth).1 follows.stopsName
        fun more first => (first ▸ follows).equals
  | name readable =>
      exact keywordArgument_of_name readable.1 follows.stopsName
        fun more first => (first ▸ follows).equals
  | group | tuple | list | set => exact keywordArgument_of_first rfl rfl
  | callNothing named gap | call named gap =>
      rw [List.append_assoc, List.append_assoc, List.cons_append]
      refine keywordArgument_of_name named (stopsName_of_isGap gap rfl _) fun more first => ?_
      rw [skipped_append_of_isGap gap, skipped_cons rfl] at first
      exact nomatch first
  | index left right ih =>
      rw [List.append_assoc]
      exact ih _ (Follows.subscript _ (by decide)).skip rfl
  | power raises left right ih =>
      rw [List.append_assoc, List.append_assoc]
      exact ih _ (Follows.power raises _ (by decide)).skip rfl
  | @sign op => cases op <;> exact keywordArgument_of_first rfl rfl
  | product factor before after ih =>
      rw [List.append_assoc, List.append_assoc]
      have single := (after.startsOperand.append rest).head?_ne (.inl rfl)
      exact ih _ (Follows.product factor single (by decide)).skip rfl
  | sum summand before after ih =>
      rw [List.append_assoc, List.append_assoc]
      exact ih _ (Follows.sum summand _ (by decide)).skip rfl
  | comparison before after ih =>
      rw [List.append_assoc, List.append_assoc]
      exact ih _ (Follows.comparison _ _ (by decide)).skip rfl
  | _ => exact nomatch same

-----------------------------------------------------------------------------------------
-- Every level reads its spellings
-----------------------------------------------------------------------------------------

/-- The parser of a level, inside which expressions nest at most `bound` deep. -/
def Level.parser (bound : Nat) : Level → Parser Expr
  | .comparison => Expr.comparison (Expr.signed (bound + 1))
  | .sum => Expr.sum (Expr.signed (bound + 1))
  | .product => Expr.product (Expr.signed (bound + 1))
  | .signed => Expr.signed (bound + 1)
  | .power => Expr.power (Expr.signed bound)
  | .subscripted => Expr.subscripted (Expr.comparison (Expr.signed bound))
  | .atom => Expr.atom (Expr.comparison (Expr.signed bound))

/-- The tightest operators that may follow a level; chains find their own ones there. -/
def Level.limit : Level → Nat
  | .comparison => 0
  | .sum => 2
  | .product => 3
  | .signed => 3
  | .power => 3
  | .subscripted => 5
  | .atom => 5

/-- How a level goes on after an expression: chains take the operations that they still find. -/
def Level.goesOn (bound : Nat) (e : Expr) (rest : List Char) : Level → Expr × List Char
  | .sum =>
    (manyFrom (operation summandOp (Expr.product (Expr.signed (bound + 1)))) rest).map
      (chained e) id
  | .product => (manyFrom (operation factorOp (Expr.signed (bound + 1))) rest).map (chained e) id
  | .subscripted =>
    (manyFrom (subscript (Expr.comparison (Expr.signed bound))) rest).map
      (List.foldl .index e) id
  | _ => (e, rest)

theorem Level.skipsSpaces (bound : Nat) (level : Level) : SkipsSpaces (level.parser bound) := by
  cases level with
  | comparison => exact skipsSpaces_comparison bound
  | sum => exact skipsSpaces_sum bound
  | product => exact skipsSpaces_product bound
  | signed => exact skipsSpaces_signed bound
  | power => exact skipsSpaces_power _
  | subscripted => exact (SkipsSpaces.token _).bind _
  | atom => exact SkipsSpaces.token _

/-- The parser reads what a text spells, in front of anything that may follow it. -/
def ReadsBack (bound : Nat) : Phrase → List Char → Prop
  | .expression level e, text => ∀ rest, Follows level.limit (skipped rest) →
    level.parser bound (text ++ rest) = .ok (level.goesOn bound e (skipped rest))
  | .items values, text => ReadsItems (comparison (signed (bound + 1))) values text
  | .contents values comma, text =>
    ReadsContents (comparison (signed (bound + 1))) values comma text
  | .argument value, text => ReadsItem (argument (comparison (signed (bound + 1)))) value text
  | .arguments values, text => ReadsItems (argument (comparison (signed (bound + 1)))) values text

theorem comparison_of_none {operand : Parser Expr} {text : List Char} {e : Expr}
    (left : sum operand text = .ok (e, rest)) (follows : Follows 0 rest)
    : comparison operand text = .ok (e, rest) := by
  obtain ⟨stopped, none⟩ := follows.comparisonOp
  rw [comparison, bind_of_ok left, bind_of_ok (optional_of_error (bind_of_error none))]
  rfl

theorem comparison_of_some {operand : Parser Expr} {text between behind : List Char}
    {op : ComparisonOp} {left right : Expr} (before : sum operand text = .ok (left, between))
    (mark : comparisonOp between = .ok (op, behind)) (after : sum operand behind = .ok (right, rest))
    : comparison operand text = .ok (.binary (.comparison op) left right, rest) := by
  have compared : (do
      let op ← comparisonOp
      let right ← sum operand
      return (op, right)) between = .ok ((op, right), rest) := by
    rw [bind_of_ok mark, bind_of_ok after]
    rfl
  rw [comparison, bind_of_ok before, bind_of_ok (optional_of_ok compared)]
  rfl

theorem power_of_none {operand : Parser Expr} {text : List Char} {e : Expr}
    (base : subscripted (comparison operand) text = .ok (e, rest)) (follows : Follows 3 rest)
    : power operand text = .ok (e, rest) := by
  obtain ⟨stopped, none⟩ := follows.powerMark
  have other : (do
      orElse (symbol "**") (symbol "^")
      operand) rest = .error stopped := bind_of_error none
  rw [power, bind_of_ok base, bind_of_ok (optional_of_error other)]
  rfl

theorem power_of_some {operand : Parser Expr} {text between behind : List Char}
    {base exponent : Expr}
    (before : subscripted (comparison operand) text = .ok (base, between))
    (mark : powerMark between = .ok ((), behind)) (after : operand behind = .ok (exponent, rest))
    : power operand text = .ok (.binary (.arithmetic .pow) base exponent, rest) := by
  have raised : (do
      orElse (symbol "**") (symbol "^")
      operand) between = .ok (exponent, rest) := (bind_of_ok mark).trans after
  rw [power, bind_of_ok before, bind_of_ok (optional_of_ok raised)]
  rfl

/-- An operand without sign is read as a power. -/
theorem signed_of_unsigned {text : List Char} (unsigned : StartsOperand true text)
    : signed (bound + 1) text = power (signed bound) text := by
  obtain ⟨c, more, first, starts | ⟨⟨⟩, _⟩⟩ := unsigned
  have other {pattern : Char} {op : UnaryOp} (apart : startsAtom pattern = false)
      : withSign (.ofList [pattern]) op (signed bound) text = .error (c :: more) := by
    refine bind_of_error (token_of_error ?_)
    rw [← skipped, first, String.toList_ofList]
    exact exactText_of_head (ne_of_kind starts apart).symm []
  have minus : withSign "-" .neg (signed bound) text = .error (c :: more) := other rfl
  have plus : withSign "+" .pos (signed bound) text = .error (c :: more) := other rfl
  rw [signed, choice_cons, orElse_of_error minus, choice_cons, orElse_of_error plus]
  rfl

/-- A level reads the spellings of the next tighter one where nothing goes on with it. -/
theorem ReadsBack.tighter {level : Level} {e : Expr} {text : List Char}
    (starts : level.tighter.isUnsigned = true → StartsOperand true text)
    (h : ReadsBack bound (.expression level.tighter e) text)
    : ReadsBack bound (.expression level e) text := by
  cases level with
  | comparison =>
      intro rest follows
      have left : sum (signed (bound + 1)) (text ++ rest)
          = .ok (Level.goesOn bound e (skipped rest) .sum) := h rest (follows.mono (by decide))
      have ends : Follows 1 (skipped rest) := follows.mono (by decide)
      rw [Level.goesOn, manyFrom_operation_of_error ends.summandOp] at left
      exact comparison_of_none left follows
  | sum =>
      intro rest follows
      have first : product (signed (bound + 1)) (text ++ rest)
          = .ok (Level.goesOn bound e (skipped rest) .product) := h rest (follows.mono (by decide))
      rw [Level.goesOn, manyFrom_operation_of_error (Follows.factorOp follows)] at first
      exact leftAssociative_of_ok first
  | product => exact fun rest follows => leftAssociative_of_ok (h rest follows)
  | signed =>
      intro rest follows
      exact (signed_of_unsigned ((starts rfl).append rest)).trans (h rest follows)
  | power =>
      intro rest follows
      have base : subscripted (comparison (signed bound)) (text ++ rest)
          = .ok (Level.goesOn bound e (skipped rest) .subscripted) :=
        h rest (follows.mono (by decide))
      have ends : Follows 4 (skipped rest) := follows.mono (by decide)
      obtain ⟨stopped, none⟩ := ends.position (comparison (signed bound))
      rw [Level.goesOn, manyFrom_of_error none] at base
      exact power_of_none base follows
  | subscripted => exact fun rest follows => bind_of_ok (h rest follows)
  | atom => exact h

/-- Where signs may stand, nothing has to be known about the start of the text. -/
theorem ReadsBack.looser {level : Level} {e : Expr} {text : List Char}
    (signed : level.tighter.isUnsigned = false)
    (h : ReadsBack bound (.expression level.tighter e) text)
    : ReadsBack bound (.expression level e) text :=
  h.tighter fun unsigned => absurd (signed.symm.trans unsigned) Bool.false_ne_true

/-- Spaces on either side do not change what is read. -/
theorem ReadsBack.spaced {level : Level} {e : Expr} {before text after : List Char}
    (left : IsGap before) (right : IsGap after) (h : ReadsBack bound (.expression level e) text)
    : ReadsBack bound (.expression level e) (before ++ (text ++ after)) := by
  intro rest follows
  have behind : skipped (after ++ rest) = skipped rest := skipped_append_of_isGap right rest
  rw [List.append_assoc, (level.skipsSpaces bound).gap left, List.append_assoc, ← behind]
  exact h _ (behind ▸ follows)

theorem ReadsBack.index {target position : Expr} {first second : List Char}
    (left : ReadsBack (bound + 1) (.expression .subscripted target) first)
    (right : ReadsBack bound (.expression .comparison position) second)
    : ReadsBack (bound + 1) (.expression .subscripted (.index target position))
        (first ++ '[' :: (second ++ [']'])) := by
  intro rest follows
  have opens : symbol "[" ('[' :: (second ++ ']' :: rest))
      = .ok ((), skipped (second ++ ']' :: rest)) := rfl
  have inside : comparison (signed (bound + 1)) (skipped (second ++ ']' :: rest))
      = .ok (position, ']' :: rest) := by
    rw [skipsSpaces_comparison]
    exact right _ (.close (.inr (.inl rfl)) rest)
  have closes : symbol "]" (']' :: rest) = .ok ((), skipped rest) := rfl
  have next : subscript (comparison (signed (bound + 1))) ('[' :: (second ++ ']' :: rest))
      = .ok (position, skipped rest) := by
    rw [subscript, bind_of_ok opens, bind_of_ok inside, bind_of_ok closes]
    rfl
  have shorter : (skipped rest).length < ('[' :: (second ++ ']' :: rest)).length := by
    have := length_skipped_le rest
    simp only [List.length_cons, List.length_append]
    omega
  have start : subscripted (comparison (signed (bound + 1))) (first ++ '[' :: (second ++ ']' :: rest))
      = .ok (Level.goesOn (bound + 1) target ('[' :: (second ++ ']' :: rest)) .subscripted) :=
    left ('[' :: (second ++ ']' :: rest)) (Follows.subscript _ (by decide))
  rw [Level.goesOn, manyFrom_of_ok next shorter] at start
  simp only [List.append_assoc, List.cons_append, List.nil_append]
  exact start

theorem ReadsBack.power {base exponent : Expr} {mark first second : List Char}
    (raises : mark = ['*', '*'] ∨ mark = ['^'])
    (left : ReadsBack (bound + 1) (.expression .subscripted base) first)
    (right : ReadsBack bound (.expression .signed exponent) second)
    : ReadsBack (bound + 1) (.expression .power (.binary (.arithmetic .pow) base exponent))
        (first ++ (mark ++ second)) := by
  intro rest follows
  have after : Follows 4 (mark ++ (second ++ rest)) := .power raises _ (by decide)
  obtain ⟨stopped, none⟩ := after.position (comparison (signed (bound + 1)))
  have start : subscripted (comparison (signed (bound + 1))) (first ++ (mark ++ (second ++ rest)))
      = .ok (Level.goesOn (bound + 1) base (skipped (mark ++ (second ++ rest))) .subscripted) :=
    left _ (after.mono (by decide)).skip
  rw [after.skipped_eq, Level.goesOn, manyFrom_of_error none] at start
  have operand : signed (bound + 1) (skipped (second ++ rest)) = .ok (exponent, skipped rest) := by
    rw [skipsSpaces_signed]
    exact right rest follows
  rw [List.append_assoc, List.append_assoc]
  exact power_of_some start (powerMark_append raises _) operand

theorem ReadsBack.sign {op : UnaryOp} {e : Expr} {text : List Char}
    (h : ReadsBack bound (.expression .signed e) text)
    : ReadsBack (bound + 1) (.expression .signed (.unary op e)) (op.mark :: text) := by
  intro rest follows
  have operand : signed (bound + 1) (skipped (text ++ rest)) = .ok (e, skipped rest) := by
    rw [skipsSpaces_signed]
    exact h rest follows
  cases op with
  | neg =>
      have mark : symbol "-" ('-' :: (text ++ rest)) = .ok ((), skipped (text ++ rest)) := rfl
      have read : withSign "-" .neg (signed (bound + 1)) ('-' :: (text ++ rest))
          = .ok (.unary .neg e, skipped rest) := by
        rw [withSign, bind_of_ok mark, bind_of_ok operand]
        rfl
      exact orElse_of_ok read
  | pos =>
      have mark : symbol "+" ('+' :: (text ++ rest)) = .ok ((), skipped (text ++ rest)) := rfl
      have other : withSign "-" .neg (signed (bound + 1)) ('+' :: (text ++ rest))
          = .error ('+' :: (text ++ rest)) := bind_of_error rfl
      have read : withSign "+" .pos (signed (bound + 1)) ('+' :: (text ++ rest))
          = .ok (.unary .pos e, skipped rest) := by
        rw [withSign, bind_of_ok mark, bind_of_ok operand]
        rfl
      exact (orElse_of_error other).trans (orElse_of_ok read)

/-- What follows an operation is shorter than the operation with it. -/
theorem length_skipped_lt {mark second : List Char} (shows : mark ≠ [])
    : (skipped rest).length < (mark ++ (second ++ rest)).length := by
  have := length_skipped_le rest
  have := List.length_pos_iff.mpr shows
  simp only [List.length_append]
  omega

theorem ArithmeticOp.symbol_ne_nil (op : ArithmeticOp) : op.symbol.toList ≠ [] := by
  cases op <;> decide

/-- A chain that is read up to an operation goes on with the operation and what it still finds. -/
theorem chained_of_operation {chain operand : Parser Expr} {operator : Parser ArithmeticOp}
    {op : ArithmeticOp} {left right : Expr} {first second : List Char}
    (start : chain (first ++ (op.symbol.toList ++ (second ++ rest)))
      = .ok ((manyFrom (operation operator operand) (op.symbol.toList ++ (second ++ rest))).map
          (chained left) id))
    (mark : operator (op.symbol.toList ++ (second ++ rest)) = .ok (op, skipped (second ++ rest)))
    (behind : operand (skipped (second ++ rest)) = .ok (right, skipped rest))
    : chain (first ++ (op.symbol.toList ++ second) ++ rest)
        = .ok ((manyFrom (operation operator operand) (skipped rest)).map
            (chained (.binary (.arithmetic op) left right)) id) := by
  have next := operation_of_ok mark behind
  rw [manyFrom_of_ok next (length_skipped_lt (ArithmeticOp.symbol_ne_nil op))] at start
  rw [List.append_assoc, List.append_assoc]
  exact start

/-- A product goes on with one more factor. -/
theorem ReadsBack.product {op : ArithmeticOp} {left right : Expr} {first second : List Char}
    (factor : op = .mul ∨ op = .div ∨ op = .rem)
    (before : ReadsBack bound (.expression .product left) first)
    (starts : StartsOperand false second)
    (after : ReadsBack bound (.expression .signed right) second)
    : ReadsBack bound (.expression .product (.binary (.arithmetic op) left right))
        (first ++ (op.symbol.toList ++ second)) := by
  intro rest follows
  have single := (starts.append rest).head?_ne (.inl rfl)
  have mark : Follows 3 (op.symbol.toList ++ (second ++ rest)) :=
    .product factor single (by decide)
  have operand : signed (bound + 1) (skipped (second ++ rest)) = .ok (right, skipped rest) := by
    rw [skipsSpaces_signed]
    exact after rest follows
  have start := before _ mark.skip
  rw [mark.skipped_eq] at start
  exact chained_of_operation start (factorOp_append factor single) operand

/-- A sum goes on with one more summand, a product that nothing goes on with. -/
theorem ReadsBack.sum {op : ArithmeticOp} {left right : Expr} {first second : List Char}
    (summand : op = .add ∨ op = .sub)
    (before : ReadsBack bound (.expression .sum left) first)
    (after : ReadsBack bound (.expression .product right) second)
    : ReadsBack bound (.expression .sum (.binary (.arithmetic op) left right))
        (first ++ (op.symbol.toList ++ second)) := by
  intro rest follows
  have mark : Follows 2 (op.symbol.toList ++ (second ++ rest)) := .sum summand _ (by decide)
  have operand : Expr.product (signed (bound + 1)) (skipped (second ++ rest))
      = .ok (Level.goesOn bound right (skipped rest) .product) := by
    rw [skipsSpaces_product]
    exact after rest (follows.mono (by decide))
  rw [Level.goesOn, manyFrom_operation_of_error (Follows.factorOp follows)] at operand
  have start := before _ mark.skip
  rw [mark.skipped_eq] at start
  exact chained_of_operation start (summandOp_append summand _) operand

/-- Sums on both sides of a comparison end with it and with what follows. -/
theorem ReadsBack.comparison {op : ComparisonOp} {left right : Expr} {first second : List Char}
    (before : ReadsBack bound (.expression .sum left) first)
    (spelled : Spells (.expression .sum right) second)
    (after : ReadsBack bound (.expression .sum right) second)
    : ReadsBack bound (.expression .comparison (.binary (.comparison op) left right))
        (first ++ (op.symbol.toList ++ second)) := by
  intro rest follows
  have single := (spelled.startsOperand.append rest).head?_ne (.inr rfl)
  have mark : Follows 1 (op.symbol.toList ++ (second ++ rest)) := .comparison op _ (by decide)
  have start : Expr.sum (signed (bound + 1)) (first ++ (op.symbol.toList ++ (second ++ rest)))
      = .ok (Level.goesOn bound left (skipped (op.symbol.toList ++ (second ++ rest))) .sum) :=
    before _ (mark.mono (by decide)).skip
  rw [mark.skipped_eq, Level.goesOn, manyFrom_operation_of_error mark.summandOp] at start
  have operand : Expr.sum (signed (bound + 1)) (skipped (second ++ rest))
      = .ok (Level.goesOn bound right (skipped rest) .sum) := by
    rw [skipsSpaces_sum]
    exact after rest (follows.mono (by decide))
  have ends : Follows 1 (skipped rest) := follows.mono (by decide)
  rw [Level.goesOn, manyFrom_operation_of_error ends.summandOp] at operand
  rw [List.append_assoc, List.append_assoc]
  exact comparison_of_some start (comparisonOp_append op single) operand

-----------------------------------------------------------------------------------------
-- Calls
-----------------------------------------------------------------------------------------

theorem skipsSpaces_argument (bound : Nat)
    : SkipsSpaces (argument (Expr.comparison (signed (bound + 1)))) :=
  (skipsSpaces_keywordArgument _).orElse ((skipsSpaces_comparison bound).bind _)

/-- An expression is read as an argument, since it is no keyword argument. -/
theorem ReadsBack.positional {e : Expr} {text : List Char}
    (spelled : Spells (.expression .comparison e) text)
    (h : ReadsBack bound (.expression .comparison e) text)
    : ReadsBack bound (.argument (.positional e)) text := by
  intro rest follows
  obtain ⟨stopped, none⟩ := spelled.keywordArgument (Expr.comparison (signed (bound + 1))) rest
    (follows.mono (by decide))
  exact (orElse_of_error none).trans (bind_of_ok (h rest follows))

/-- One equals sign behind a name makes a keyword argument. -/
theorem ReadsBack.keyword {name : String} {e : Expr} {before between text : List Char}
    (left : IsGap before) (named : isName name.toList = true) (right : IsGap between)
    (spelled : Spells (.expression .comparison e) text)
    (h : ReadsBack bound (.expression .comparison e) text)
    : ReadsBack bound (.argument (.keyword name e))
        (before ++ (name.toList ++ (between ++ '=' :: text))) := by
  intro rest follows
  have word : token identifier (name.toList ++ (between ++ '=' :: (text ++ rest)))
      = .ok (name, '=' :: (text ++ rest)) := by
    rw [token_identifier named (stopsName_of_isGap right rfl _), String.ofList_toList,
      skipped_append_of_isGap right, skipped_cons rfl]
  have single : notBefore '=' (text ++ rest) = .ok ((), text ++ rest) :=
    if_neg ((spelled.startsOperand.append rest).head?_ne (.inr rfl))
  have value : Expr.comparison (signed (bound + 1)) (text ++ rest) = .ok (e, skipped rest) :=
    h rest follows
  have read : keywordArgument (Expr.comparison (signed (bound + 1)))
      (name.toList ++ (between ++ '=' :: (text ++ rest))) = .ok (.keyword name e, skipped rest) := by
    rw [keywordArgument, bind_of_ok word, bind_of_ok (char_cons '=' _), bind_of_ok single,
      bind_of_ok value]
    rfl
  simp only [List.append_assoc, List.cons_append]
  rw [(skipsSpaces_argument bound).gap left]
  exact orElse_of_ok read

-----------------------------------------------------------------------------------------
-- Every spelling is read
-----------------------------------------------------------------------------------------

theorem Spells.exists_item {values : List Expr} {text : List Char} (h : Spells (.items values) text)
    : ∃ e es, values = e :: es := by
  cases h <;> exact ⟨_, _, rfl⟩

theorem Spells.exists_argument {values : List Argument} {text : List Char}
    (h : Spells (.arguments values) text)
    : ∃ first others, values = first :: others := by
  cases h <;> exact ⟨_, _, rfl⟩

/-- The parser reads every spelling, by induction on it; a bound as long as the text leaves enough
for everything inside. -/
theorem Spells.readsBack {phrase : Phrase} {text : List Char} (h : Spells phrase text)
    (enough : text.length ≤ bound)
    : ReadsBack bound phrase text := by
  induction h generalizing bound with
  | spaced left right _ ih =>
      simp only [List.length_append] at enough
      exact (ih (by omega)).spaced left right
  | tighter spelled ih => exact (ih enough).tighter (fun unsigned => unsigned ▸ spelled.startsOperand)
  | number nonempty all value fits =>
      subst value
      exact fun rest follows => ofNumeral_of_fits fits ▸ atom_number nonempty all follows
  | string quote quotes =>
      intro rest follows
      rw [List.cons_append, List.append_assoc]
      exact atom_string quote quotes
  | bool truth =>
      intro rest follows
      obtain ⟨named, value⟩ := named_of_truth truth
      exact value ▸ atom_word named follows
  | name readable =>
      intro rest follows
      exact ofName_of_notTruth readable.2 ▸ atom_word readable.1 follows
  | group _ ih =>
      intro rest follows
      simp only [List.length_cons, List.length_append] at enough
      obtain ⟨inner, rfl⟩ : ∃ inner, bound = inner + 1 := ⟨bound - 1, by omega⟩
      rw [List.cons_append, List.append_assoc]
      exact atom_group (ReadsItems.contents (ReadsItem.readsItems (ih (by omega))))
  | tuple _ several ih =>
      intro rest follows
      simp only [List.length_cons, List.length_append] at enough
      obtain ⟨inner, rfl⟩ : ∃ inner, bound = inner + 1 := ⟨bound - 1, by omega⟩
      rw [List.cons_append, List.append_assoc]
      exact atom_tuple (ih (by omega)) several
  | list _ ih =>
      intro rest follows
      simp only [List.length_cons, List.length_append] at enough
      obtain ⟨inner, rfl⟩ : ∃ inner, bound = inner + 1 := ⟨bound - 1, by omega⟩
      rw [List.cons_append, List.append_assoc]
      exact atom_list (ih (by omega))
  | set _ ih =>
      intro rest follows
      simp only [List.length_cons, List.length_append] at enough
      obtain ⟨inner, rfl⟩ : ∃ inner, bound = inner + 1 := ⟨bound - 1, by omega⟩
      rw [List.cons_append, List.append_assoc]
      exact atom_set (ih (by omega))
  | callNothing named gap empty =>
      intro rest follows
      simp only [List.length_cons, List.length_append] at enough
      obtain ⟨inner, rfl⟩ : ∃ inner, bound = inner + 1 := ⟨bound - 1, by omega⟩
      obtain ⟨stopped, none⟩ := argument_of_close inner (.inl rfl) empty rest
      simp only [List.append_assoc, List.cons_append, List.nil_append]
      refine atom_call named gap (commaSeparated_of_error none) ?_
      rw [skipped_append_of_isGap empty, skipped_cons rfl]
  | call named gap inside ih =>
      intro rest follows
      simp only [List.length_cons, List.length_append] at enough
      obtain ⟨inner, rfl⟩ : ∃ inner, bound = inner + 1 := ⟨bound - 1, by omega⟩
      obtain ⟨first, others, rfl⟩ := inside.exists_argument
      have values : ReadsItems (argument (Expr.comparison (signed (inner + 1)))) _ _ :=
        ih (by omega)
      have closes : Closes ')' := .inl rfl
      have start_eq := skipped_cons closes.isSpace_eq rest
      have read := values.commaSeparated (skipsSpaces_argument inner) rfl
        (closes.follows rest).skip (by rw [start_eq, behindCommas_close _ closes])
      rw [start_eq] at read
      simp only [List.append_assoc, List.cons_append, List.nil_append]
      exact atom_call named gap read start_eq
  | index left right ih right_ih =>
      simp only [List.length_cons, List.length_append] at enough
      obtain ⟨inner, rfl⟩ : ∃ inner, bound = inner + 1 := ⟨bound - 1, by omega⟩
      exact (ih (by omega)).index (right_ih (by omega))
  | @power _ _ mark _ _ raises _ _ ih right_ih =>
      have shows : 0 < mark.length := by rcases raises with rfl | rfl <;> decide
      simp only [List.length_append] at enough
      obtain ⟨inner, rfl⟩ : ∃ inner, bound = inner + 1 := ⟨bound - 1, by omega⟩
      exact (ih (by omega)).power raises (right_ih (by omega))
  | sign _ ih =>
      simp only [List.length_cons] at enough
      obtain ⟨inner, rfl⟩ : ∃ inner, bound = inner + 1 := ⟨bound - 1, by omega⟩
      exact (ih (by omega)).sign
  | product factor _ after ih after_ih =>
      simp only [List.length_append] at enough
      exact (ih (by omega)).product factor after.startsOperand (after_ih (by omega))
  | sum summand _ _ ih after_ih =>
      simp only [List.length_append] at enough
      exact (ih (by omega)).sum summand (after_ih (by omega))
  | comparison _ after ih after_ih =>
      simp only [List.length_append] at enough
      exact (ih (by omega)).comparison after (after_ih (by omega))
  | item _ ih => exact ReadsItem.readsItems (ih enough)
  | moreItems _ _ ih others_ih =>
      simp only [List.length_append, List.length_cons] at enough
      exact ReadsItems.cons (ih (by omega)) (others_ih (by omega))
  | nothing empty => exact readsContents_nothing bound empty
  | contents inside ih =>
      obtain ⟨e, es, rfl⟩ := inside.exists_item
      exact ReadsItems.contents (ih enough)
  | trailing inside empty ih =>
      simp only [List.length_append] at enough
      obtain ⟨e, es, rfl⟩ := inside.exists_item
      exact ReadsItems.trailing (ih (by omega)) empty
  | positional value ih => exact ReadsBack.positional value (ih enough)
  | keyword left named right value ih =>
      simp only [List.length_append, List.length_cons] at enough
      exact ReadsBack.keyword left named right value (ih (by omega))
  | lastArgument _ ih => exact ReadsItem.readsItems (ih enough)
  | moreArguments _ _ ih others_ih =>
      simp only [List.length_append, List.length_cons] at enough
      exact ReadsItems.cons (ih (by omega)) (others_ih (by omega))

/-- What is read in front of anything is read as a whole, where nothing follows. -/
theorem ReadsBack.whole {e : Expr} {text : List Char}
    (h : ReadsBack text.length (.expression .comparison e) text)
    : Expr.whole text = .ok (e, []) := by
  have read : Expr.comparison (signed (text.length + 1)) (text ++ []) = .ok (e, skipped []) :=
    h [] .nil
  rw [List.append_nil, ← skipsSpaces_comparison] at read
  exact token_of_ok read

theorem ReadsBack.parseChars {e : Expr} {text : List Char}
    (h : ReadsBack text.length (.expression .comparison e) text)
    (flat : nestingDepth text ≤ maxNesting)
    : Expr.parseChars text = .ok e := by
  rw [Expr.parseChars, if_neg (Nat.not_lt.mpr flat), h.whole]

/-- A spelling is read as a whole. -/
theorem whole_spelled {e : Expr} {text : List Char}
    (spelled : Spells (.expression .comparison e) text)
    : whole text = .ok (e, []) :=
  (spelled.readsBack (Nat.le_refl _)).whole

theorem parseChars_spelled {e : Expr} {text : List Char}
    (spelled : Spells (.expression .comparison e) text) (flat : nestingDepth text ≤ maxNesting)
    : parseChars text = .ok e :=
  (spelled.readsBack (Nat.le_refl _)).parseChars flat

/-- A variable on its own reads the value of that name. -/
theorem parse_variable {name : String} (readable : IsVariable name)
    : parse name = .ok (.ident name) := by
  refine parseChars_spelled (Spells.name readable).atomic ?_
  rw [nestingDepth_name (continuesName_of_isName readable.1)]
  exact Nat.zero_le _

/-- The parser accepts every spelling of an expression that does not nest too deep. -/
theorem parse_spelled {e : Expr} {text : List Char}
    (spelled : Spells (.expression .comparison e) text) (flat : nestingDepth text ≤ maxNesting)
    : parse (.ofList text) = .ok e := by
  rw [parse, String.toList_ofList, parseChars, if_neg (Nat.not_lt.mpr flat), whole_spelled spelled]

/-- The tree of `-2 ** x - f(y == 1, k = y) - 1`. -/
def tangled : Expr :=
  .binary (.arithmetic .sub)
    (.binary (.arithmetic .sub)
      (.unary .neg (.binary (.arithmetic .pow) (.number (.integer 2 fits_two)) (.ident "x")))
      (.call "f" [.binary (.comparison .eq) (.ident "y") (.number (.integer 1 fits_one))]
        [("k", .ident "y")]))
    (.number (.integer 1 fits_one))

/-- A sign in front of a power, a difference of three operands, and a comparison beside a keyword in
a call. -/
theorem parse_tangled
    : nestingDepth "-2 ** x - f(y == 1, k = y) - 1".toList ≤ maxNesting
      ∧ parse "-2 ** x - f(y == 1, k = y) - 1" = .ok tangled := by
  have flat : nestingDepth "-2 ** x - f(y == 1, k = y) - 1".toList ≤ maxNesting := by decide
  have gap : IsGap [' '] := by simp [IsGap, isSpace]
  have none : IsGap [] := by simp [IsGap]
  have one : Spells (.expression .atom (.number (.integer (1 : Nat)))) ['1'] :=
    @Spells.number ['1'] 1 (List.cons_ne_nil _ _) (by simp [isDigit]) rfl (by decide)
  have two : Spells (.expression .atom (.number (.integer (2 : Nat)))) ['2'] :=
    @Spells.number ['2'] 2 (List.cons_ne_nil _ _) (by simp [isDigit]) rfl (by decide)
  have x : Spells (.expression .atom (.ident "x")) ['x'] :=
    Spells.name (show IsVariable "x" by decide)
  have y : Spells (.expression .atom (.ident "y")) ['y'] :=
    Spells.name (show IsVariable "y" by decide)
  have raised := Spells.power (.inl rfl) (Spells.spaced none gap two).atomic
    (Spells.spaced gap gap x).atomic
  have opposite := @Spells.sign .neg _ _ (.tighter raised)
  have equation := @Spells.comparison .eq _ _ _ _ (Spells.spaced none gap y).atomic
    (Spells.spaced gap none one).atomic
  have keyword := @Spells.keyword "k" _ _ _ _ gap (by decide) gap
    (Spells.spaced gap none y).atomic
  have call := @Spells.call "f" _ _ _ (by decide) none
    (.moreArguments (.positional equation) (.lastArgument keyword))
  have difference := @Spells.sum .sub _ _ _ _ (.inr rfl) (.tighter (.tighter opposite))
    (Spells.spaced gap gap call).atomic
  have whole := @Spells.sum .sub _ _ _ _ (.inr rfl) difference (Spells.spaced gap none one).atomic
  exact ⟨flat, parse_spelled (.tighter whole) flat⟩

end QuizVariants.Expr
