import Mathlib.Data.List.DropRight
import QuizVariants.Expr.Parser

/-! Runs of parsers.
What a parser made of smaller ones does on a text is said by what the smaller ones do on it, and
what it gives on any text by what they give.
-/

namespace QuizVariants.Parser

open QuizVariants.Text

variable {α β : Type} {text rest : List Char}

-----------------------------------------------------------------------------------------
-- What a parser does on a text
-----------------------------------------------------------------------------------------

/-- After a parser that succeeds the next one reads the rest; witness: both are state steps. -/
theorem bind_of_ok {first : Parser α} {next : α → Parser β} {value : α}
    (h : first text = .ok (value, rest))
    : (first >>= next) text = next value rest := by
  change (first text >>= fun read => next read.1 read.2) = _
  rw [h]
  rfl

theorem bind_of_error {first : Parser α} {next : α → Parser β}
    (h : first text = .error rest)
    : (first >>= next) text = .error rest := by
  change (first text >>= fun read => next read.1 read.2) = _
  rw [h]
  rfl

theorem orElse_of_error {first second : Parser α} (h : first text = .error rest)
    : orElse first second text = second text := by
  simp only [orElse, h]

theorem orElse_of_ok {first second : Parser α} {value : α} (h : first text = .ok (value, rest))
    : orElse first second text = .ok (value, rest) := by
  simp only [orElse, h]

theorem choice_cons (first : Parser α) (more : List (Parser α)) (last : Parser α)
    : choice (first :: more) last = orElse first (choice more last) :=
  rfl

/-- A token may have spaces on both sides. -/
theorem token_of_ok {p : Parser α} {value : α}
    (h : p (text.dropWhile isSpace) = .ok (value, rest))
    : token p text = .ok (value, rest.dropWhile isSpace) := by
  change (p >>= fun value => spaces >>= fun _ => pure value) (text.dropWhile isSpace) = _
  rw [bind_of_ok h]
  rfl

theorem token_of_error {p : Parser α} (h : p (text.dropWhile isSpace) = .error rest)
    : token p text = .error rest := by
  change (p >>= fun value => spaces >>= fun _ => pure value) (text.dropWhile isSpace) = _
  rw [bind_of_error h]

theorem optional_of_ok {p : Parser α} {value : α} (h : p text = .ok (value, rest))
    : optional p text = .ok (some value, rest) := by
  simp only [optional, h]

theorem optional_of_error {p : Parser α} (h : p text = .error rest)
    : optional p text = .ok (none, text) := by
  simp only [optional, h]

/-- A text is read up to where it ends. -/
theorem exactText_append (pattern rest : List Char)
    : exactText pattern (pattern ++ rest) = .ok ((), rest) := by
  rw [exactText, after?_eq_some_iff.mpr rfl]

theorem exactText_of_head {c other : Char} (apart : c ≠ other) (pattern : List Char)
    : exactText (c :: pattern) (other :: rest) = .error (other :: rest) := by
  simp only [exactText, after?, if_neg apart]

theorem char_cons (c : Char) (rest : List Char) : char c (c :: rest) = .ok ((), rest) :=
  exactText_append [c] rest

theorem char_of_head {c other : Char} (apart : c ≠ other)
    : char c (other :: rest) = .error (other :: rest) :=
  exactText_of_head apart []

/-- Nothing is repeated where a parser fails at once. -/
theorem manyFrom_of_error {p : Parser α} (h : p text = .error rest)
    : manyFrom p text = ([], text) := by
  rw [manyFrom, h]

/-- What a parser reads is repeated from where it stops. -/
theorem manyFrom_of_ok {p : Parser α} {value : α} (h : p text = .ok (value, rest))
    (shorter : rest.length < text.length)
    : manyFrom p text = (value :: (manyFrom p rest).1, (manyFrom p rest).2) := by
  rw [manyFrom, h]
  simp only [shorter, if_true]

/-- What takes no character is not repeated. -/
theorem manyFrom_of_not_lt {p : Parser α} {value : α} (h : p text = .ok (value, rest))
    (same : ¬ rest.length < text.length)
    : manyFrom p text = ([], text) := by
  rw [manyFrom, h]
  simp only [same, if_false]

/-- A parser reads with commas in between what it would read behind a comma, over and over. -/
theorem commaSeparated_of_manyFrom {p : Parser α} {value : α} {values : List α}
    {start : List Char} (same : p start = p text)
    (h : manyFrom (do char ','; p) (',' :: text) = (value :: values, rest))
    : commaSeparated p start = .ok (value :: values, rest) := by
  have behind : (do char ','; p) (',' :: text) = p text := bind_of_ok (char_cons ',' text)
  rw [manyFrom, behind] at h
  cases read : p text with
  | error stopped =>
      rw [read] at h
      exact nomatch h
  | ok first =>
      obtain ⟨other, after⟩ := first
      rw [read] at h
      dsimp only at h
      split at h
      · obtain ⟨values_eq, rfl⟩ := Prod.mk.inj h
        obtain ⟨rfl, rfl⟩ := List.cons.inj values_eq
        simp only [commaSeparated, same, read]
      · exact nomatch h

theorem commaSeparated_of_error {p : Parser α} (h : p text = .error rest)
    : commaSeparated p text = .ok ([], text) := by
  simp only [commaSeparated, h]

-----------------------------------------------------------------------------------------
-- What was read by a parser made of others
-----------------------------------------------------------------------------------------

/-- The second of two parsers goes on where the first one stopped. -/
theorem exists_of_bind {first : Parser α} {next : α → Parser β} {result : β}
    (h : (first >>= next) text = .ok (result, rest))
    : ∃ value after, first text = .ok (value, after) ∧ next value after = .ok (result, rest) := by
  cases start : first text with
  | error stopped =>
      rw [bind_of_error start] at h
      cases h
  | ok found =>
      rw [bind_of_ok start] at h
      exact ⟨found.1, found.2, rfl, h⟩

/-- What one of two parsers reads was read by the one or by the other. -/
theorem reads_of_orElse {first second : Parser α} {value : α}
    (h : orElse first second text = .ok (value, rest))
    : first text = .ok (value, rest) ∨ second text = .ok (value, rest) := by
  cases start : first text with
  | error stopped =>
      rw [orElse_of_error start] at h
      exact .inr h
  | ok found =>
      rw [orElse_of_ok start] at h
      exact .inl h

/-- Where an optional parser reads nothing, the text is left as it is. -/
theorem reads_of_optional {p : Parser α} {found : Option α}
    (h : optional p text = .ok (found, rest))
    : (∃ value, found = some value ∧ p text = .ok (value, rest))
      ∨ (found = none ∧ rest = text) := by
  unfold optional at h
  split at h
  · next value after start =>
    cases h
    exact .inl ⟨value, rfl, start⟩
  · cases h
    exact .inr ⟨rfl, rfl⟩

/-- A token was read behind the spaces in front of it, and spaces were dropped behind it. -/
theorem exists_of_token {p : Parser α} {value : α} (h : token p text = .ok (value, rest))
    : ∃ after, p (text.dropWhile isSpace) = .ok (value, after)
      ∧ rest = after.dropWhile isSpace := by
  obtain ⟨_, _, spaced, behind⟩ := exists_of_bind h
  obtain ⟨_, rfl⟩ := Prod.mk.inj (Except.ok.inj spaced)
  obtain ⟨found, after, start, ended⟩ := exists_of_bind behind
  obtain ⟨rfl, rfl⟩ := Prod.mk.inj (Except.ok.inj ended)
  exact ⟨after, start, rfl⟩

/-- What holds of the parsers of a choice holds of the choice if it holds of one of two of them, by
induction on the parsers. -/
theorem choice_of_orElse {motive : Parser α → Prop}
    (step : ∀ {first second}, motive first → motive second → motive (orElse first second))
    {parsers : List (Parser α)} {last : Parser α} (all : ∀ p ∈ parsers, motive p)
    (final : motive last)
    : motive (choice parsers last) := by
  induction parsers with
  | nil => exact final
  | cons first more ih =>
      obtain ⟨head, others⟩ := List.forall_mem_cons.mp all
      rw [choice_cons]
      exact step head (ih others)

-----------------------------------------------------------------------------------------
-- Spaces between tokens
-----------------------------------------------------------------------------------------

/-- Characters that may stand between two tokens. -/
def IsGap (text : List Char) : Prop :=
  ∀ c ∈ text, isSpace c = true

/-- A text from its first character on that does not just separate tokens. -/
def skipped (text : List Char) : List Char :=
  text.dropWhile isSpace

theorem skipped_skipped (text : List Char) : skipped (skipped text) = skipped text :=
  List.dropWhile_idempotent isSpace text

theorem skipped_append_of_isGap {gap : List Char} (h : IsGap gap) (text : List Char)
    : skipped (gap ++ text) = skipped text :=
  List.dropWhile_append_of_pos h

theorem skipped_cons {c : Char} (shows : isSpace c = false) (text : List Char)
    : skipped (c :: text) = c :: text := by
  rw [skipped, List.dropWhile_cons_of_neg (by simp [shows])]

/-- What follows does not matter where something shows. -/
theorem skipped_append_of_cons {c : Char} {more : List Char} (h : skipped text = c :: more)
    (rest : List Char)
    : skipped (text ++ rest) = c :: (more ++ rest) := by
  rw [skipped] at h
  rw [skipped, List.dropWhile_append, h]
  rfl

theorem length_skipped_le (text : List Char) : (skipped text).length ≤ text.length :=
  List.length_dropWhile_le _ _

/-- A parser that reads the same with and without spaces in front. -/
def SkipsSpaces (p : Parser α) : Prop :=
  ∀ text, p (skipped text) = p text

/-- Spaces in front of a text that something else follows do not matter either. -/
theorem SkipsSpaces.gap {p : Parser α} (h : SkipsSpaces p) {gap : List Char} (empty : IsGap gap)
    (text : List Char)
    : p (gap ++ text) = p text := by
  rw [← h (gap ++ text), skipped_append_of_isGap empty, h text]

theorem SkipsSpaces.token (p : Parser α) : SkipsSpaces (token p) := by
  intro text
  change (p >>= fun value => spaces >>= fun _ => pure value) (skipped (skipped text)) = _
  rw [skipped_skipped]
  rfl

theorem SkipsSpaces.bind {first : Parser α} (h : SkipsSpaces first) (next : α → Parser β)
    : SkipsSpaces (first >>= next) := by
  intro text
  change (first (skipped text) >>= fun read => next read.1 read.2) = _
  rw [h text]
  rfl

theorem SkipsSpaces.orElse {first second : Parser α} (left : SkipsSpaces first)
    (right : SkipsSpaces second)
    : SkipsSpaces (orElse first second) := by
  intro text
  rw [Parser.orElse, Parser.orElse, left text, right text]

-----------------------------------------------------------------------------------------
-- What a parser gives on any text
-----------------------------------------------------------------------------------------

/-- Whatever a parser reads is `good`. -/
def Gives (p : Parser α) (good : α → Prop) : Prop :=
  ∀ text value rest, p text = .ok (value, rest) → good value

variable {good : α → Prop} {fine : β → Prop}

theorem Gives.anything (p : Parser α) : Gives p (fun _ => True) :=
  fun _ _ _ _ => trivial

theorem Gives.fail : Gives (fail : Parser α) good := by
  intro text value rest read
  cases read

theorem Gives.pure {value : α} (h : good value) : Gives (pure value) good := by
  intro text other rest read
  obtain ⟨rfl, rfl⟩ := Prod.mk.inj (Except.ok.inj read)
  exact h

/-- The second of two parsers may rely on what the first one gave. -/
theorem Gives.bind {first : Parser α} {next : α → Parser β} (left : Gives first good)
    (right : ∀ value, good value → Gives (next value) fine)
    : Gives (first >>= next) fine := by
  intro text value rest read
  obtain ⟨middle, after, start, behind⟩ := exists_of_bind read
  exact right middle (left text middle after start) after value rest behind

/-- What a first parser gives does not matter where its value is dropped. -/
theorem Gives.after {first : Parser α} {next : α → Parser β}
    (right : ∀ value, Gives (next value) fine)
    : Gives (first >>= next) fine :=
  (Gives.anything first).bind (fun value _ => right value)

theorem Gives.orElse {first second : Parser α} (left : Gives first good)
    (right : Gives second good)
    : Gives (orElse first second) good := by
  intro text value rest read
  exact (reads_of_orElse read).elim (left text value rest) (right text value rest)

theorem Gives.choice {parsers : List (Parser α)} {last : Parser α}
    (all : ∀ p ∈ parsers, Gives p good) (final : Gives last good)
    : Gives (choice parsers last) good :=
  choice_of_orElse Gives.orElse all final

theorem Gives.optional {p : Parser α} (h : Gives p good)
    : Gives (optional p) (fun found => ∀ value, found = some value → good value) := by
  rintro text _ rest read value rfl
  rcases reads_of_optional read with ⟨_, ⟨⟩, start⟩ | ⟨⟨⟩, _⟩
  exact h text value rest start

theorem Gives.token {p : Parser α} (h : Gives p good) : Gives (token p) good :=
  .after (fun _ => h.bind (fun _ fit => .after (fun _ => .pure fit)))

/-- Repeated values are good one by one, by induction on the text that is left. -/
theorem good_of_mem_manyFrom {p : Parser α} (h : Gives p good) (text : List Char)
    : ∀ value ∈ (manyFrom p text).1, good value := by
  induction text using manyFrom.induct p with
  | case1 text stopped start =>
      rw [manyFrom_of_error start]
      exact List.forall_mem_nil _
  | case2 text value rest start shorter _ _ _ ih =>
      rw [manyFrom_of_ok start shorter]
      exact List.forall_mem_cons.mpr ⟨h text value rest start, ih⟩
  | case3 text value rest start same =>
      rw [manyFrom_of_not_lt start same]
      exact List.forall_mem_nil _

theorem Gives.many {p : Parser α} (h : Gives p good)
    : Gives (many p) (fun values => ∀ value ∈ values, good value) := by
  intro text values rest read
  obtain rfl : (manyFrom p text).1 = values := congrArg Prod.fst (Except.ok.inj read)
  exact good_of_mem_manyFrom h text

theorem Gives.commaSeparated {p : Parser α} (h : Gives p good)
    : Gives (commaSeparated p) (fun values => ∀ value ∈ values, good value) := by
  intro text values rest read
  unfold Parser.commaSeparated at read
  split at read
  · cases read
    exact List.forall_mem_nil _
  · next first after start =>
    obtain rfl := congrArg Prod.fst (Except.ok.inj read)
    have later : Gives (do char ','; p) good := .after (fun _ => h)
    exact List.forall_mem_cons.mpr
      ⟨h text first after start, good_of_mem_manyFrom later after⟩

end QuizVariants.Parser
