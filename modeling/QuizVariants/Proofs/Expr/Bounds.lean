import QuizVariants.Proofs.Expr.Tokens

/-! The bound on nested operands.
Operands that nest in each other are read with a bound that the length of the text sets. Each of
them starts behind a character of the one around it, so that a bound above the length of a text cuts
nothing short, and spaces in front of an expression do not matter.
-/

namespace QuizVariants.Parser

open QuizVariants.Text

variable {α β : Type} {size : Nat}

/-- Two parsers that do the same on all texts with fewer than `size` characters, and leave no more
characters than they are given. -/
def Agree (size : Nat) (first second : Parser α) : Prop :=
  ∀ text, text.length < size →
    second text = first text
    ∧ ∀ value rest, first text = .ok (value, rest) → rest.length ≤ text.length

/-- A parser that never leaves more characters than it is given. -/
def Shrinks (p : Parser α) : Prop :=
  ∀ text value rest, p text = .ok (value, rest) → rest.length ≤ text.length

/-- A parser that takes at least one character. -/
def Takes (p : Parser α) : Prop :=
  ∀ text value rest, p text = .ok (value, rest) → rest.length < text.length

theorem Shrinks.agree {p : Parser α} (h : Shrinks p) (size : Nat) : Agree size p p :=
  fun text _ => ⟨rfl, h text⟩

-----------------------------------------------------------------------------------------
-- Parsers made of others
-----------------------------------------------------------------------------------------

theorem Agree.pure (value : α) : Agree size (pure value) (pure value) := by
  refine Shrinks.agree (fun text other rest read => ?_) size
  obtain ⟨-, rfl⟩ := Prod.mk.inj (Except.ok.inj read)
  exact Nat.le_refl _

/-- Two parsers in a row do on a text what two others do, if the first ones do the same on it and
the second ones on what is left of it. -/
theorem agree_bind_at {first other : Parser α} {next later : α → Parser β} {text : List Char}
    (same : other text = first text)
    (behind : ∀ value after, first text = .ok (value, after) →
      after.length ≤ text.length
      ∧ later value after = next value after
      ∧ ∀ result rest, next value after = .ok (result, rest) → rest.length ≤ after.length)
    : (other >>= later) text = (first >>= next) text
      ∧ ∀ result rest, (first >>= next) text = .ok (result, rest) →
        rest.length ≤ text.length := by
  cases start : first text with
  | error stopped =>
      rw [bind_of_error start, bind_of_error (same.trans start)]
      exact ⟨rfl, fun _ _ read => nomatch read⟩
  | ok found =>
      obtain ⟨value, after⟩ := found
      obtain ⟨shorter, again, less⟩ := behind value after start
      rw [bind_of_ok start, bind_of_ok (same.trans start)]
      exact ⟨again, fun result rest read => Nat.le_trans (less result rest read) shorter⟩

/-- The second parser reads a text that is no longer than that of the first one. -/
theorem Agree.bind {first other : Parser α} {next later : α → Parser β}
    (left : Agree size first other) (right : ∀ value, Agree size (next value) (later value))
    : Agree size (first >>= next) (other >>= later) := by
  intro text small
  obtain ⟨same, shrinks⟩ := left text small
  refine agree_bind_at same (fun value after start => ?_)
  have shorter := shrinks value after start
  exact ⟨shorter, right value after (Nat.lt_of_le_of_lt shorter small)⟩

/-- Behind a parser that takes a character, parsers need to agree on shorter texts only. -/
theorem Agree.behind {first : Parser α} (takes : Takes first) {next later : α → Parser β}
    (right : ∀ value, Agree size (next value) (later value))
    : Agree (size + 1) (first >>= next) (first >>= later) := by
  intro text small
  refine agree_bind_at rfl (fun value after start => ?_)
  have shorter := takes text value after start
  exact ⟨shorter.le, right value after (by omega)⟩

theorem Agree.orElse {first second other later : Parser α} (left : Agree size first other)
    (right : Agree size second later)
    : Agree size (orElse first second) (orElse other later) := by
  intro text small
  obtain ⟨same, shrinks⟩ := left text small
  cases start : first text with
  | error stopped =>
      rw [orElse_of_error start, orElse_of_error (same.trans start)]
      exact right text small
  | ok result =>
      obtain ⟨value, after⟩ := result
      rw [orElse_of_ok start, orElse_of_ok (same.trans start)]
      refine ⟨rfl, fun value rest read => ?_⟩
      obtain ⟨rfl, rfl⟩ := Prod.mk.inj (Except.ok.inj read)
      exact shrinks _ _ start

theorem Agree.optional {p q : Parser α} (h : Agree size p q)
    : Agree size (optional p) (optional q) := by
  intro text small
  obtain ⟨same, shrinks⟩ := h text small
  cases start : p text with
  | error stopped =>
      rw [optional_of_error start, optional_of_error (same.trans start)]
      refine ⟨rfl, fun value rest read => ?_⟩
      obtain ⟨-, rfl⟩ := Prod.mk.inj (Except.ok.inj read)
      exact Nat.le_refl _
  | ok result =>
      obtain ⟨value, after⟩ := result
      rw [optional_of_ok start, optional_of_ok (same.trans start)]
      refine ⟨rfl, fun value rest read => ?_⟩
      obtain ⟨-, rfl⟩ := Prod.mk.inj (Except.ok.inj read)
      exact shrinks _ _ start

theorem shrinks_spaces : Shrinks spaces := by
  intro text value rest read
  obtain ⟨-, rfl⟩ := Prod.mk.inj (Except.ok.inj read)
  exact List.length_dropWhile_le _ _

theorem Agree.token {p q : Parser α} (h : Agree size p q) : Agree size (token p) (token q) :=
  (shrinks_spaces.agree size).bind (fun _ =>
    h.bind (fun value => (shrinks_spaces.agree size).bind (fun _ => .pure value)))

/-- Repeated parsers agree on all shorter texts, by induction on the text that is left. -/
theorem agree_manyFrom {p q : Parser α} (h : Agree size p q) {text : List Char}
    (small : text.length < size)
    : manyFrom q text = manyFrom p text ∧ (manyFrom p text).2.length ≤ text.length := by
  induction text using manyFrom.induct p with
  | case1 text stopped start =>
      rw [manyFrom_of_error start, manyFrom_of_error ((h text small).1.trans start)]
      exact ⟨rfl, Nat.le_refl _⟩
  | case2 text value rest start shorter _ _ _ ih =>
      obtain ⟨same, less⟩ := ih (shorter.trans small)
      rw [manyFrom_of_ok start shorter, manyFrom_of_ok ((h text small).1.trans start) shorter, same]
      exact ⟨rfl, Nat.le_trans less shorter.le⟩
  | case3 text value rest start same =>
      rw [manyFrom_of_not_lt start same, manyFrom_of_not_lt ((h text small).1.trans start) same]
      exact ⟨rfl, Nat.le_refl _⟩

theorem Agree.many {p q : Parser α} (h : Agree size p q) : Agree size (many p) (many q) := by
  intro text small
  obtain ⟨same, less⟩ := agree_manyFrom h small
  refine ⟨congrArg Except.ok same, fun value rest read => ?_⟩
  obtain rfl : (manyFrom p text).2 = rest := congrArg Prod.snd (Except.ok.inj read)
  exact less

-----------------------------------------------------------------------------------------
-- Parsers that take characters
-----------------------------------------------------------------------------------------

theorem Takes.shrinks {p : Parser α} (h : Takes p) : Shrinks p :=
  fun text value rest read => (h text value rest read).le

theorem takes_exactText {pattern : List Char} (some : pattern ≠ [])
    : Takes (exactText pattern) := by
  intro text value rest read
  unfold exactText at read
  split at read
  · next found =>
    obtain ⟨-, rfl⟩ := Prod.mk.inj (Except.ok.inj read)
    have positive := List.length_pos_of_ne_nil some
    rw [after?_eq_some_iff.mp found, List.length_append]
    omega
  · exact nomatch read

theorem takes_char (c : Char) : Takes (char c) :=
  takes_exactText (List.cons_ne_nil c [])

theorem Takes.token {p : Parser α} (h : Takes p) : Takes (token p) := by
  intro text value rest read
  obtain ⟨after, start, rfl⟩ := exists_of_token read
  have less : (text.dropWhile isSpace).length ≤ text.length := List.length_dropWhile_le _ _
  have behind : (after.dropWhile isSpace).length ≤ after.length := List.length_dropWhile_le _ _
  have taken := h _ _ _ start
  omega

theorem takes_symbol {pattern : String} (some : pattern.toList ≠ []) : Takes (symbol pattern) :=
  (takes_exactText some).token

theorem Takes.orElse {first second : Parser α} (left : Takes first) (right : Takes second)
    : Takes (orElse first second) := by
  intro text value rest read
  exact (reads_of_orElse read).elim (left text value rest) (right text value rest)

theorem Agree.commaSeparated {p q : Parser α} (h : Agree size p q)
    : Agree size (commaSeparated p) (commaSeparated q) := by
  have behind : Agree size (do char ','; p) (do char ','; q) :=
    ((takes_char ',').shrinks.agree size).bind (fun _ => h)
  intro text small
  obtain ⟨same, shrinks⟩ := h text small
  cases start : p text with
  | error stopped =>
      rw [commaSeparated_of_error start, commaSeparated_of_error (same.trans start)]
      refine ⟨rfl, fun value rest read => ?_⟩
      obtain ⟨-, rfl⟩ := Prod.mk.inj (Except.ok.inj read)
      exact Nat.le_refl _
  | ok result =>
      obtain ⟨value, after⟩ := result
      have shorter := shrinks value after start
      obtain ⟨again, less⟩ := agree_manyFrom behind (Nat.lt_of_le_of_lt shorter small)
      simp only [Parser.commaSeparated, start, same, again]
      refine ⟨trivial, fun value rest read => ?_⟩
      obtain rfl := congrArg Prod.snd (Except.ok.inj read)
      exact Nat.le_trans less shorter

end QuizVariants.Parser

namespace QuizVariants.Expr

open QuizVariants.Text
open QuizVariants.Parser
open QuizVariants.Decimal

variable {size : Nat} {first second : Parser Expr}

-----------------------------------------------------------------------------------------
-- Words of the grammar
-----------------------------------------------------------------------------------------

/-- A parser whose count is known takes away the start of a text. -/
theorem Counts.shrinks {post : Nesting → α → Nesting → Prop} {p : Parser α} (h : Counts p post)
    : Shrinks p := by
  intro text value rest read
  obtain ⟨taken, rfl, -⟩ := h text value rest read
  rw [List.length_append]
  exact Nat.le_add_left _ _

theorem agree_numeral : Agree size numeral numeral :=
  ((keeps_ofOption leavesMute_readNumeral?).shrinks.agree size).bind (fun _ => .pure _)

theorem agree_stringLiteral : Agree size stringLiteral stringLiteral :=
  (keeps_stringLiteral.shrinks.agree size).bind (fun _ => .pure _)

theorem agree_identifier : Agree size identifier identifier :=
  keeps_identifier.shrinks.agree size

theorem agree_char (c : Char) : Agree size (char c) (char c) :=
  (takes_char c).shrinks.agree size

theorem agree_notBefore (c : Char) : Agree size (notBefore c) (notBefore c) :=
  (keeps_notBefore c).shrinks.agree size

theorem agree_operator {pattern : String} (some : pattern.toList ≠ []) (op : α)
    : Agree size (operator pattern op) (operator pattern op) :=
  ((takes_symbol some).shrinks.agree size).bind (fun _ => .pure op)

-----------------------------------------------------------------------------------------
-- Levels of the grammar
-----------------------------------------------------------------------------------------

theorem agree_keywordArgument (h : Agree size first second)
    : Agree size (keywordArgument first) (keywordArgument second) :=
  agree_identifier.token.bind (fun _ => (agree_char '=').bind (fun _ =>
    (agree_notBefore '=').bind (fun _ => h.bind (fun _ => .pure _))))

theorem agree_argument (h : Agree size first second)
    : Agree size (argument first) (argument second) :=
  (agree_keywordArgument h).orElse (h.bind (fun _ => .pure _))

/-- What stands in brackets starts behind the opening one. -/
theorem agree_arguments (h : Agree size first second)
    : Agree (size + 1) (arguments first) (arguments second) :=
  (shrinks_spaces.agree _).bind (fun _ => .behind (takes_char '(') (fun _ =>
    (agree_argument h).commaSeparated.bind (fun _ => (agree_char ',').optional.bind (fun _ =>
      (agree_char ')').token.bind (fun _ => .pure _)))))

theorem agree_callOrName (h : Agree size first second)
    : Agree (size + 1) (callOrName first) (callOrName second) := by
  refine agree_identifier.bind (fun name => (agree_arguments h).optional.bind (fun found => ?_))
  cases found with
  | none => exact .pure _
  | some arguments => exact .pure _

theorem agree_parenthesized (h : Agree size first second)
    : Agree (size + 1) (parenthesized first) (parenthesized second) := by
  refine .behind (takes_char '(') (fun _ => h.commaSeparated.bind (fun items =>
    (agree_char ',').token.optional.bind (fun comma => (agree_char ')').token.bind (fun _ => ?_))))
  split <;> exact .pure _

theorem agree_items (h : Agree size first second) : Agree size (items first) (items second) :=
  h.commaSeparated.bind (fun _ => (agree_char ',').token.optional.bind (fun _ => .pure _))

theorem agree_listLiteral (h : Agree size first second)
    : Agree (size + 1) (listLiteral first) (listLiteral second) :=
  .behind (takes_char '[') (fun _ => (agree_items h).token.bind (fun _ =>
    (agree_char ']').bind (fun _ => .pure _)))

theorem agree_setLiteral (h : Agree size first second)
    : Agree (size + 1) (setLiteral first) (setLiteral second) :=
  .behind (takes_char '{') (fun _ => (agree_items h).token.bind (fun _ =>
    (agree_char '}').bind (fun _ => .pure _)))

theorem agree_atom (h : Agree size first second)
    : Agree (size + 1) (atom first) (atom second) :=
  .token (agree_numeral.orElse (agree_stringLiteral.orElse ((agree_callOrName h).orElse
    ((agree_parenthesized h).orElse ((agree_listLiteral h).orElse (agree_setLiteral h))))))

theorem agree_subscript (h : Agree size first second)
    : Agree (size + 1) (subscript first) (subscript second) :=
  .behind (takes_symbol (by decide)) (fun _ => h.bind (fun _ =>
    ((takes_symbol (by decide)).shrinks.agree size).bind (fun _ => .pure _)))

theorem agree_subscripted (h : Agree size first second)
    : Agree (size + 1) (subscripted first) (subscripted second) :=
  (agree_atom h).bind (fun _ => (agree_subscript h).many.bind (fun _ => .pure _))

theorem agree_leftAssociative {op : Parser ArithmeticOp} (same : Agree size op op)
    (h : Agree size first second)
    : Agree size (leftAssociative op first) (leftAssociative op second) :=
  h.bind (fun _ => (same.bind (fun _ => h.bind (fun _ => .pure _))).many.bind (fun _ => .pure _))

theorem agree_times : Agree size times times :=
  ((agree_char '*').bind (fun _ => agree_notBefore '*')).token.bind (fun _ => .pure _)

theorem agree_product (h : Agree size first second)
    : Agree size (product first) (product second) :=
  agree_leftAssociative (agree_times.orElse ((agree_operator (by decide) _).orElse
    (agree_operator (by decide) _))) h

theorem agree_sum (h : Agree size first second) : Agree size (sum first) (sum second) :=
  agree_leftAssociative ((agree_operator (by decide) _).orElse (agree_operator (by decide) _))
    (agree_product h)

theorem agree_comparisonOp : Agree size comparisonOp comparisonOp :=
  (agree_operator (by decide) _).orElse ((agree_operator (by decide) _).orElse
    ((agree_operator (by decide) _).orElse ((agree_operator (by decide) _).orElse
      ((agree_operator (by decide) _).orElse (agree_operator (by decide) _)))))

theorem agree_comparison (h : Agree size first second)
    : Agree size (comparison first) (comparison second) := by
  refine (agree_sum h).bind (fun left => Agree.bind
    (agree_comparisonOp.bind (fun _ => (agree_sum h).bind (fun _ => .pure _))).optional
    (fun found => ?_))
  cases found with
  | none => exact .pure _
  | some right => exact .pure _

/-- An exponent starts behind the mark in front of it. -/
theorem agree_power (h : Agree size first second)
    : Agree (size + 1) (power first) (power second) := by
  have mark : Takes (orElse (symbol "**") (symbol "^")) :=
    (takes_symbol (by decide)).orElse (takes_symbol (by decide))
  refine (agree_subscripted (agree_comparison h)).bind (fun base => Agree.bind
    (Agree.behind mark (fun _ => h)).optional (fun found => ?_))
  cases found with
  | none => exact .pure _
  | some exponent => exact .pure _

theorem agree_withSign {pattern : String} (some : pattern.toList ≠ []) (op : UnaryOp)
    (h : Agree size first second)
    : Agree (size + 1) (withSign pattern op first) (withSign pattern op second) :=
  .behind (takes_symbol some) (fun _ => h.bind (fun _ => .pure _))

/-- Bounds that are no smaller than the length of a text do not matter, by induction on the
length. -/
theorem agree_signed {size bound other : Nat} (large : size ≤ bound) (larger : size ≤ other)
    : Agree size (signed bound) (signed other) := by
  induction size generalizing bound other with
  | zero => exact fun text small => absurd small (Nat.not_lt_zero _)
  | succ size ih =>
      obtain ⟨bound, rfl⟩ : ∃ less, bound = less + 1 := ⟨bound - 1, by omega⟩
      obtain ⟨other, rfl⟩ : ∃ less, other = less + 1 := ⟨other - 1, by omega⟩
      have nested : Agree size (signed bound) (signed other) := ih (by omega) (by omega)
      exact (agree_withSign (by decide) .neg nested).orElse
        ((agree_withSign (by decide) .pos nested).orElse (agree_power nested))

-----------------------------------------------------------------------------------------
-- Spaces in front of an expression
-----------------------------------------------------------------------------------------

/-- The bound that a text sets for itself does as well as every larger one. -/
theorem whole_eq_token_of_length_lt {text : List Char} {bound : Nat} (large : text.length < bound)
    : whole text = token (comparison (signed bound)) text :=
  ((agree_comparison (agree_signed (Nat.le_refl _) large)).token text (Nat.lt_succ_self _)).1.symm

theorem whole_gap {gap : List Char} (empty : IsGap gap) (text : List Char)
    : whole (gap ++ text) = whole text := by
  have large : text.length < (gap ++ text).length + 1 := by
    rw [List.length_append]
    omega
  rw [whole_eq_token_of_length_lt large, whole, (SkipsSpaces.token _).gap empty]

/-- Nothing is counted before the first character that shows, by induction on the spaces in front
of it. -/
theorem exists_foldl_step_gap {gap : List Char} (empty : IsGap gap) {previous : Char}
    (apart : previous ≠ '*')
    : ∃ last, last ≠ '*'
      ∧ gap.foldl Nesting.step { Nesting.start with previous }
        = { Nesting.start with previous := last } := by
  induction gap generalizing previous with
  | nil => exact ⟨previous, apart, rfl⟩
  | cons c gap ih =>
      obtain ⟨space, others⟩ := List.forall_mem_cons.mp empty
      have step : Nesting.step { Nesting.start with previous } c
          = { Nesting.start with previous := c } := by
        simp only [isSpace, Bool.or_eq_true, beq_iff_eq] at space
        rcases space with ((rfl | rfl) | rfl) | rfl <;> rfl
      have apart : c ≠ '*' := ne_of_kind space rfl
      rw [List.foldl_cons, step]
      exact ih others apart

/-- The character before an expression does not count, unless it is half of a power. -/
theorem step_start {last c : Char} (apart : last ≠ '*')
    : Nesting.step { Nesting.start with previous := last } c = Nesting.step Nesting.start c := by
  simp [Nesting.step, Nesting.start, Nesting.stepOutside, apart]

theorem nestingDepth_gap {gap : List Char} (empty : IsGap gap) (text : List Char)
    : nestingDepth (gap ++ text) = nestingDepth text := by
  have start : ∃ last, last ≠ '*'
      ∧ gap.foldl Nesting.step Nesting.start = { Nesting.start with previous := last } :=
    exists_foldl_step_gap empty (by decide)
  obtain ⟨last, apart, fold⟩ := start
  rw [nestingDepth, List.foldl_append, fold, nestingDepth]
  cases text with
  | nil => rfl
  | cons c text => rw [List.foldl_cons, List.foldl_cons, step_start apart]

/-- Spaces in front of an expression do not matter, neither for its tree nor for its fault. -/
theorem parse_gap {gap : List Char} (empty : IsGap gap) (text : List Char)
    : parse (.ofList (gap ++ text)) = parse (.ofList text) := by
  simp only [parse, String.toList_ofList, parseChars, nestingDepth_gap empty, whole_gap empty]

end QuizVariants.Expr
