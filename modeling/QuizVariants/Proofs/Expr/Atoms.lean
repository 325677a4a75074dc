import QuizVariants.Proofs.Decimal.Digits
import QuizVariants.Proofs.Expr.Operators

/-! Atoms.
Numbers, strings and names are read up to what follows them, and brackets and calls are read when
what stands inside is.
-/

namespace QuizVariants.Expr

open QuizVariants.Decimal
open QuizVariants.Text
open QuizVariants.Parser

-----------------------------------------------------------------------------------------
-- Words, numbers and strings
-----------------------------------------------------------------------------------------

variable {expression : Parser Expr} {rest : List Char}

/-- What is read without spaces in front is read as an atom. -/
theorem atom_of_ok {text : List Char} {e : Expr} (start : skipped text = text)
    (h : choice [numeral, stringLiteral, callOrName expression, parenthesized expression,
        listLiteral expression] (setLiteral expression) text = .ok (e, rest))
    : atom expression text = .ok (e, skipped rest) := by
  refine token_of_ok ?_
  rwa [← skipped, start]

/-- The tree of digits is the number that they denote, if that fits in a word. -/
theorem ofNumeral_of_fits {digits : List Char} (fits : Fits (naturalOf digits))
    : ofNumeral ⟨digits, none, none⟩ = .number (.integer (naturalOf digits) fits) := by
  have plain : Numeral.natural? ⟨digits, none, none⟩ = some (naturalOf digits) := rfl
  have word : Word.ofInt? (naturalOf digits) = some ⟨naturalOf digits, fits⟩ := by
    rw [Word.ofInt?, dif_pos fits]
  rw [ofNumeral, plain, Option.bind_some, word]

/-- Digits are read up to what follows them. -/
theorem numeral_append {digits : List Char} (nonempty : digits ≠ [])
    (all : ∀ c ∈ digits, isDigit c = true) (follows : Follows 5 (skipped rest))
    : numeral (digits ++ rest) = .ok (ofNumeral ⟨digits, none, none⟩, rest) := by
  have found : ofOption Numeral.read? (digits ++ rest)
      = .ok ((⟨digits, none, none⟩ : Numeral), rest) := by
    simp only [ofOption, Numeral.read?_append nonempty all follows.stops]
  rw [numeral, bind_of_ok found]
  rfl

theorem atom_number {digits : List Char} (nonempty : digits ≠ [])
    (all : ∀ c ∈ digits, isDigit c = true) (follows : Follows 5 (skipped rest))
    : atom expression (digits ++ rest) = .ok (ofNumeral ⟨digits, none, none⟩, skipped rest) := by
  refine atom_of_ok ?_ (orElse_of_ok (numeral_append nonempty all follows))
  cases digits with
  | nil => exact absurd rfl nonempty
  | cons c digits =>
      exact skipped_cons (isSpace_of_isBare (isBare_of_isDigit (all c List.mem_cons_self))) _

/-- A string is read up to its closing mark, by induction on what its marks enclose. -/
theorem stringBody_append {mark : Char} (apart : mark ≠ '\\') {content body : List Char}
    (h : Quotes mark content body) (rest : List Char)
    : stringBody mark (body ++ mark :: rest) = some (content, rest) := by
  induction h with
  | nil => simp [stringBody]
  | plain other more ih =>
      simp [stringBody, other.1, other.2, ih]
  | escaped special more ih =>
      simp [stringBody, unescape, special, ih]
  | kept plain more ih =>
      simp [stringBody, unescape, plain, ih]

theorem atom_string {mark : Char} (quote : mark = '\'' ∨ mark = '"') {content body : List Char}
    (h : Quotes mark content body)
    : atom expression (mark :: (body ++ mark :: rest))
        = .ok (.string (.ofList content), skipped rest) := by
  have apart : mark ≠ '\\' := by rcases quote with rfl | rfl <;> decide
  have other : numeral (mark :: (body ++ mark :: rest))
      = .error (mark :: (body ++ mark :: rest)) := by
    rcases quote with rfl | rfl <;> rfl
  have read : stringLiteral (mark :: (body ++ mark :: rest))
      = .ok (.string (.ofList content), rest) := by
    have found : ofOption string? (mark :: (body ++ mark :: rest)) = .ok (content, rest) := by
      simp only [ofOption, string?, if_pos quote, stringBody_append apart h]
    rw [stringLiteral, bind_of_ok found]
    rfl
  refine atom_of_ok ?_ ((orElse_of_error other).trans (orElse_of_ok read))
  exact skipped_cons (by rcases quote with rfl | rfl <;> rfl) _

/-- What starts like a name is read as a call or a name. -/
theorem atom_of_callOrName {c : Char} {text : List Char} {e : Expr} (starts : startsName c = true)
    (h : callOrName expression (c :: text) = .ok (e, rest))
    : atom expression (c :: text) = .ok (e, skipped rest) := by
  refine atom_of_ok (dropWhile_isSpace_name starts) ?_
  rw [choice_cons, orElse_of_error (numeral_of_startsName starts), choice_cons,
    orElse_of_error (stringLiteral_of_startsName starts), choice_cons, orElse_of_ok h]

/-- No arguments follow an operand. -/
theorem arguments_of_follows {limit : Nat} (expression : Parser Expr)
    (follows : Follows limit (skipped rest))
    : ∃ stopped, arguments expression rest = .error stopped := by
  have start : spaces rest = .ok ((), skipped rest) := rfl
  have mark : char '(' (skipped rest) = .error (skipped rest) := by
    cases text : skipped rest with
    | nil => rfl
    | cons c more =>
        rw [text] at follows
        exact char_of_head follows.exists_first.2.2.2.symm
  exact ⟨_, (bind_of_ok start).trans (bind_of_error mark)⟩

/-- A gap separates a name from a mark. -/
theorem stopsName_of_isGap {gap : List Char} (h : IsGap gap) {c : Char}
    (mark : continuesName c = false) (rest : List Char)
    : Stops continuesName (gap ++ c :: rest) := by
  cases gap with
  | nil => exact stops_cons.mpr mark
  | cons space gap =>
      refine stops_cons.mpr (Bool.eq_false_iff.mpr fun continues => ?_)
      have shows := isSpace_of_isBare (isBare_of_continuesName continues)
      exact Bool.noConfusion (shows.symm.trans (h space List.mem_cons_self))

theorem Follows.stopsName {limit : Nat} {rest : List Char} (h : Follows limit (skipped rest))
    : Stops continuesName rest :=
  fun c first => (Bool.or_eq_false_iff.mp (h.stops c first)).1

/-- A name is read on its own where no arguments follow. -/
theorem atom_word {name : String} (named : isName name.toList = true)
    (follows : Follows 5 (skipped rest))
    : atom expression (name.toList ++ rest) = .ok (ofName name, skipped rest) := by
  have read : callOrName expression (name.toList ++ rest) = .ok (ofName name, rest) := by
    obtain ⟨stopped, none⟩ := arguments_of_follows expression follows
    rw [callOrName, bind_of_ok (identifier_append named follows.stopsName),
      bind_of_ok (optional_of_error none), String.ofList_toList]
    rfl
  cases word : name.toList with
  | nil =>
      rw [word] at named
      exact nomatch named
  | cons c more =>
      rw [word] at named read
      exact atom_of_callOrName (Bool.and_eq_true_iff.mp named).1 read

-----------------------------------------------------------------------------------------
-- Brackets
-----------------------------------------------------------------------------------------

/-- Marks that close brackets. -/
def Closes (c : Char) : Prop :=
  c = ')' ∨ c = ']' ∨ c = '}'

theorem Closes.follows {c : Char} (closes : Closes c) (rest : List Char)
    : Follows 0 (c :: rest) :=
  .close (closes.imp_right (Or.imp_right .inl)) rest

theorem Closes.isSpace_eq {c : Char} (closes : Closes c) : isSpace c = false := by
  rcases closes with rfl | rfl | rfl <;> rfl

/-- The contents of brackets are read up to the closing mark, with or without spaces in front. -/
def ReadsContents (expression : Parser Expr) (values : List Expr) (comma : Bool)
    (text : List Char)
    : Prop :=
  ∀ start c rest, Closes c → skipped start = skipped (text ++ c :: rest) →
    ∃ between after, commaSeparated expression start = .ok (values, between)
      ∧ optional (token (char ',')) between = .ok (if comma then some () else none, after)
      ∧ skipped after = c :: rest

/-- A closing mark with spaces around it. -/
theorem token_close {c : Char} {text : List Char} (h : skipped text = c :: rest)
    : token (char c) text = .ok ((), skipped rest) := by
  refine token_of_ok ?_
  rw [← skipped, h]
  exact char_cons c rest

theorem items_of_readsContents {values : List Expr} {comma : Bool} {text : List Char}
    (h : ReadsContents expression values comma text) {c : Char} (closes : Closes c)
    (rest : List Char)
    : token (items expression) (text ++ c :: rest) = .ok (values, c :: rest) := by
  obtain ⟨between, after, read, last, ends⟩ := h (skipped (text ++ c :: rest)) c rest closes
    (skipped_skipped _)
  have inside : items expression (skipped (text ++ c :: rest)) = .ok (values, after) := by
    rw [items, bind_of_ok read, bind_of_ok last]
    rfl
  have behind : token (items expression) (text ++ c :: rest) = .ok (values, skipped after) :=
    token_of_ok inside
  rw [behind, ends]

/-- Opening marks start no word, number or string. -/
theorem atom_of_bracket {c : Char} {text : List Char} {e : Expr}
    (opens : c = '(' ∨ c = '[' ∨ c = '{')
    (h : choice [parenthesized expression, listLiteral expression] (setLiteral expression)
      (c :: text) = .ok (e, rest))
    : atom expression (c :: text) = .ok (e, skipped rest) := by
  have number : numeral (c :: text) = .error (c :: text) := by
    rcases opens with rfl | rfl | rfl <;> rfl
  have string : stringLiteral (c :: text) = .error (c :: text) := by
    rcases opens with rfl | rfl | rfl <;> rfl
  have word : callOrName expression (c :: text) = .error (c :: text) := by
    rcases opens with rfl | rfl | rfl <;> rfl
  refine atom_of_ok (skipped_cons (by rcases opens with rfl | rfl | rfl <;> rfl) _) ?_
  rw [choice_cons, orElse_of_error number, choice_cons, orElse_of_error string, choice_cons,
    orElse_of_error word, h]

theorem atom_list {values : List Expr} {comma : Bool} {text : List Char}
    (h : ReadsContents expression values comma text)
    : atom expression ('[' :: (text ++ ']' :: rest)) = .ok (.list values, skipped rest) := by
  have other : parenthesized expression ('[' :: (text ++ ']' :: rest))
      = .error ('[' :: (text ++ ']' :: rest)) :=
    bind_of_error rfl
  have read : listLiteral expression ('[' :: (text ++ ']' :: rest)) = .ok (.list values, rest) := by
    rw [listLiteral, bind_of_ok (char_cons '[' _),
      bind_of_ok (items_of_readsContents h (.inr (.inl rfl)) rest), bind_of_ok (char_cons ']' rest)]
    rfl
  exact atom_of_bracket (.inr (.inl rfl)) ((orElse_of_error other).trans (orElse_of_ok read))

theorem atom_set {values : List Expr} {comma : Bool} {text : List Char}
    (h : ReadsContents expression values comma text)
    : atom expression ('{' :: (text ++ '}' :: rest)) = .ok (.set values, skipped rest) := by
  have tuple : parenthesized expression ('{' :: (text ++ '}' :: rest))
      = .error ('{' :: (text ++ '}' :: rest)) :=
    bind_of_error rfl
  have list : listLiteral expression ('{' :: (text ++ '}' :: rest))
      = .error ('{' :: (text ++ '}' :: rest)) :=
    bind_of_error rfl
  have read : setLiteral expression ('{' :: (text ++ '}' :: rest)) = .ok (.set values, rest) := by
    rw [setLiteral, bind_of_ok (char_cons '{' _),
      bind_of_ok (items_of_readsContents h (.inr (.inr rfl)) rest), bind_of_ok (char_cons '}' rest)]
    rfl
  exact atom_of_bracket (.inr (.inr rfl))
    ((orElse_of_error tuple).trans ((orElse_of_error list).trans read))

/-- Parentheses are read with the spaces behind them. -/
theorem atom_parenthesized {text : List Char} {e : Expr}
    (h : parenthesized expression ('(' :: text) = .ok (e, skipped rest))
    : atom expression ('(' :: text) = .ok (e, skipped rest) := by
  have read : atom expression ('(' :: text) = .ok (e, skipped (skipped rest)) :=
    atom_of_bracket (.inl rfl) (orElse_of_ok h)
  rwa [skipped_skipped] at read

/-- One expression in parentheses is that expression. -/
theorem atom_group {e : Expr} {text : List Char} (h : ReadsContents expression [e] false text)
    : atom expression ('(' :: (text ++ ')' :: rest)) = .ok (e, skipped rest) := by
  obtain ⟨between, after, read, last, ends⟩ := h (text ++ ')' :: rest) ')' rest (.inl rfl) rfl
  refine atom_parenthesized ?_
  rw [parenthesized, bind_of_ok (char_cons '(' _), bind_of_ok read, bind_of_ok last,
    bind_of_ok (token_close ends)]
  rfl

/-- A comma or any other number of expressions in parentheses makes a list. -/
theorem atom_tuple {values : List Expr} {comma : Bool} {text : List Char}
    (h : ReadsContents expression values comma text) (several : values.length ≠ 1 ∨ comma = true)
    : atom expression ('(' :: (text ++ ')' :: rest)) = .ok (.list values, skipped rest) := by
  obtain ⟨between, after, read, last, ends⟩ := h (text ++ ')' :: rest) ')' rest (.inl rfl) rfl
  refine atom_parenthesized ?_
  rw [parenthesized, bind_of_ok (char_cons '(' _), bind_of_ok read, bind_of_ok last,
    bind_of_ok (token_close ends)]
  match values, comma with
  | [_], false => exact absurd several (by simp)
  | [_], true => rfl
  | [], _ => rfl
  | _ :: _ :: _, _ => rfl

-----------------------------------------------------------------------------------------
-- Commas
-----------------------------------------------------------------------------------------

variable {bound : Nat}

/-- No expression starts with a closing mark or a comma. -/
theorem comparison_of_close (bound : Nat) {c : Char}
    (closes : c = ')' ∨ c = ']' ∨ c = '}' ∨ c = ',') (rest : List Char)
    : ∃ stopped, comparison (signed (bound + 1)) (c :: rest) = .error stopped := by
  rcases closes with rfl | rfl | rfl | rfl <;> exact ⟨_, rfl⟩

/-- What is read behind a comma, over and over. -/
def behindCommas (p : Parser α) (text : List Char) : List α × List Char :=
  manyFrom (do char ','; p) text

theorem behindCommas_of_ok {p : Parser α} {value : α} {text : List Char}
    (h : p text = .ok (value, rest)) (shorter : rest.length ≤ text.length)
    : behindCommas p (',' :: text) = (behindCommas p rest).map (value :: ·) id := by
  have read : (do char ','; p) (',' :: text) = .ok (value, rest) :=
    (bind_of_ok (char_cons ',' text)).trans h
  exact manyFrom_of_ok read (by simp only [List.length_cons]; omega)

/-- Nothing is read behind commas where none follows. -/
theorem behindCommas_close (p : Parser α) {c : Char} (closes : Closes c) (rest : List Char)
    : behindCommas p (c :: rest) = ([], c :: rest) := by
  have apart : ',' ≠ c := by rcases closes with rfl | rfl | rfl <;> decide
  exact manyFrom_of_error (bind_of_error (char_of_head apart))

/-- Nothing is read behind a comma in front of a closing mark. -/
theorem behindCommas_comma_close (bound : Nat) {c : Char} (closes : Closes c) {gap : List Char}
    (empty : IsGap gap) (rest : List Char)
    : behindCommas (comparison (signed (bound + 1))) (',' :: (gap ++ c :: rest))
        = ([], ',' :: (gap ++ c :: rest)) := by
  obtain ⟨stopped, none⟩ := comparison_of_close bound (closes.imp_right (Or.imp_right .inl)) rest
  have behind : comparison (signed (bound + 1)) (gap ++ c :: rest) = .error stopped :=
    ((skipsSpaces_comparison bound).gap empty _).trans none
  exact manyFrom_of_error ((bind_of_ok (char_cons ',' _)).trans behind)

theorem optional_comma_close {c : Char} (closes : Closes c) {text : List Char}
    (h : skipped text = c :: rest)
    : optional (token (char ',')) text = .ok (none, text) := by
  have apart : ',' ≠ c := by rcases closes with rfl | rfl | rfl <;> decide
  have other : char ',' (text.dropWhile isSpace) = .error (c :: rest) := by
    rw [← skipped, h]
    exact char_of_head apart
  exact optional_of_error (token_of_error other)

/-- A parser reads a value from a text in front of a closing mark or a comma. -/
def ReadsItem (p : Parser α) (value : α) (text : List Char) : Prop :=
  ∀ rest, Follows 0 (skipped rest) → p (text ++ rest) = .ok (value, skipped rest)

/-- A parser reads values with commas in between, and goes on behind them. -/
def ReadsItems (p : Parser α) (values : List α) (text : List Char) : Prop :=
  ∀ rest, Follows 0 (skipped rest) →
    behindCommas p (',' :: (text ++ rest))
      = (behindCommas p (skipped rest)).map (values ++ ·) id

theorem ReadsItem.readsItems {p : Parser α} {value : α} {text : List Char}
    (h : ReadsItem p value text)
    : ReadsItems p [value] text := by
  intro rest follows
  have shorter : (skipped rest).length ≤ (text ++ rest).length := by
    have := length_skipped_le rest
    simp only [List.length_append]
    omega
  exact behindCommas_of_ok (h rest follows) shorter

theorem ReadsItems.cons {p : Parser α} {value : α} {values : List α} {text more : List Char}
    (first : ReadsItem p value text) (others : ReadsItems p values more)
    : ReadsItems p (value :: values) (text ++ ',' :: more) := by
  intro rest follows
  have read := first (',' :: (more ++ rest)) (.close (.inr (.inr (.inr rfl))) _)
  rw [skipped_cons rfl] at read
  have shorter : (',' :: (more ++ rest)).length ≤ (text ++ ',' :: (more ++ rest)).length := by
    simp only [List.length_append]
    omega
  rw [List.append_assoc, List.cons_append, behindCommas_of_ok read shorter, others rest follows]
  rfl

/-- Nothing but a gap stands in empty brackets. -/
theorem readsContents_nothing (bound : Nat) {gap : List Char} (empty : IsGap gap)
    : ReadsContents (comparison (signed (bound + 1))) [] false gap := by
  intro start c rest closes same
  rw [skipped_append_of_isGap empty, skipped_cons closes.isSpace_eq] at same
  obtain ⟨stopped, none⟩ := comparison_of_close bound (closes.imp_right (Or.imp_right .inl)) rest
  rw [← same, skipsSpaces_comparison] at none
  exact ⟨start, start, commaSeparated_of_error none, optional_comma_close closes same, same⟩

/-- Values with commas in between are read as the contents of brackets. -/
theorem ReadsItems.commaSeparated {p : Parser α} (skips : SkipsSpaces p) {value : α}
    {values : List α} {text start : List Char} (h : ReadsItems p (value :: values) text)
    {rest : List Char} (same : skipped start = skipped (text ++ rest))
    (follows : Follows 0 (skipped rest)) (ends : behindCommas p (skipped rest) = ([], skipped rest))
    : Parser.commaSeparated p start = .ok (value :: values, skipped rest) := by
  have first : p start = p (text ++ rest) := by rw [← skips, same, skips]
  have all := h rest follows
  rw [ends] at all
  refine commaSeparated_of_manyFrom first (all.trans ?_)
  rw [Prod.map_apply, List.append_nil, id]

theorem ReadsItems.contents {e : Expr} {es : List Expr} {text : List Char}
    (h : ReadsItems (comparison (signed (bound + 1))) (e :: es) text)
    : ReadsContents (comparison (signed (bound + 1))) (e :: es) false text := by
  intro start c rest closes same
  have start_eq := skipped_cons closes.isSpace_eq rest
  have read := h.commaSeparated (skipsSpaces_comparison bound) same (closes.follows rest).skip
    (by rw [start_eq, behindCommas_close _ closes])
  rw [start_eq] at read
  exact ⟨c :: rest, c :: rest, read, optional_comma_close closes start_eq, start_eq⟩

/-- A comma may follow the last value. -/
theorem ReadsItems.trailing {e : Expr} {es : List Expr} {text gap : List Char}
    (h : ReadsItems (comparison (signed (bound + 1))) (e :: es) text) (empty : IsGap gap)
    : ReadsContents (comparison (signed (bound + 1))) (e :: es) true (text ++ ',' :: gap) := by
  intro start c rest closes same
  rw [List.append_assoc, List.cons_append] at same
  have follows : Follows 0 (',' :: (gap ++ c :: rest)) := .close (.inr (.inr (.inr rfl))) _
  have start_eq := follows.skipped_eq
  have read := h.commaSeparated (skipsSpaces_comparison bound) same follows.skip
    (by rw [start_eq, behindCommas_comma_close bound closes empty])
  have comma : token (char ',') (',' :: (gap ++ c :: rest)) = .ok ((), skipped (c :: rest)) := by
    rw [← skipped_append_of_isGap empty]
    exact token_of_ok (char_cons ',' _)
  rw [start_eq] at read
  have ends := skipped_cons closes.isSpace_eq rest
  exact ⟨_, skipped (c :: rest), read, optional_of_ok comma, by rw [skipped_skipped, ends]⟩

/-- Arguments are read like what stands behind their commas, and none before a closing mark. -/
theorem argument_of_close (bound : Nat) {c : Char} (closes : Closes c) {gap : List Char}
    (empty : IsGap gap) (rest : List Char)
    : ∃ stopped, argument (comparison (signed (bound + 1))) (gap ++ c :: rest)
        = .error stopped := by
  have keyword : keywordArgument (comparison (signed (bound + 1))) (c :: rest)
      = .error (c :: rest) := by
    rcases closes with rfl | rfl | rfl <;> rfl
  obtain ⟨stopped, none⟩ := comparison_of_close bound
    (closes.imp_right (Or.imp_right .inl)) rest
  have start := (skipsSpaces_keywordArgument (comparison (signed (bound + 1)))).gap empty (c :: rest)
  refine ⟨stopped, (orElse_of_error (start.trans keyword)).trans (bind_of_error ?_)⟩
  exact ((skipsSpaces_comparison bound).gap empty _).trans none

/-- A name with arguments behind it is a call. -/
theorem atom_call {expression : Parser Expr} {function : String} {values : List Argument}
    {between text after : List Char} (named : isName function.toList = true)
    (gap : IsGap between)
    (inside : commaSeparated (argument expression) (text ++ ')' :: rest) = .ok (values, after))
    (ends : skipped after = ')' :: rest)
    : atom expression (function.toList ++ (between ++ '(' :: (text ++ ')' :: rest)))
        = .ok (ofCall function values, skipped rest) := by
  have start : spaces (between ++ '(' :: (text ++ ')' :: rest))
      = .ok ((), '(' :: (text ++ ')' :: rest)) := by
    rw [spaces, ← skipped, skipped_append_of_isGap gap, skipped_cons rfl]
  -- A comma would show, but the closing mark is the first character that does.
  have comma : char ',' after = .error after := by
    cases after with
    | nil => exact absurd ends.symm (List.cons_ne_nil _ _)
    | cons c more =>
        refine char_of_head ?_
        rintro rfl
        exact absurd (List.cons.inj ((skipped_cons rfl more).symm.trans ends)).1 (by decide)
  have read : arguments expression (between ++ '(' :: (text ++ ')' :: rest))
      = .ok (values, skipped rest) := by
    rw [arguments, bind_of_ok start, bind_of_ok (char_cons '(' _), bind_of_ok inside,
      bind_of_ok (optional_of_error comma), bind_of_ok (token_close ends)]
    rfl
  have word : identifier (function.toList ++ (between ++ '(' :: (text ++ ')' :: rest)))
      = .ok (function, between ++ '(' :: (text ++ ')' :: rest)) := by
    rw [identifier_append named (stopsName_of_isGap gap rfl _), String.ofList_toList]
  have call : callOrName expression
      (function.toList ++ (between ++ '(' :: (text ++ ')' :: rest)))
        = .ok (ofCall function values, skipped rest) := by
    rw [callOrName, bind_of_ok word, bind_of_ok (optional_of_ok read)]
    rfl
  cases name : function.toList with
  | nil =>
      rw [name] at named
      exact absurd named Bool.false_ne_true
  | cons c more =>
      rw [name] at named call
      have done := atom_of_callOrName (Bool.and_eq_true_iff.mp named).1 call
      rwa [skipped_skipped] at done

end QuizVariants.Expr
