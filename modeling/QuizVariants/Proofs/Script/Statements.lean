import QuizVariants.Proofs.Literal.Outside
import QuizVariants.Proofs.Text.Joined
import QuizVariants.Script

/-! Statements of scripts.
Semicolons divide the statements of a line where they stand outside of strings, and dollars are
sigils where they do. Both readers leave a string at the mark that ends it.
-/

namespace QuizVariants.Script

open QuizVariants.Text
open QuizVariants.Literal (isQuote Inside Outside ne_backslash_of_isQuote)

/-- A text as it stands in a script, and the same text without sigils: a dollar directly in front of
a name is left out, and strings are kept as they are. Strings are closed, no line ends in the text,
and semicolons stand in strings only. -/
inductive WithoutSigils : (text plain : List Char) → Prop where
  | nil : WithoutSigils [] []
  | string {mark : Char} {inner text plain : List Char} (quote : isQuote mark = true)
    (inside : Inside mark inner) (line : '\n' ∉ inner) (more : WithoutSigils text plain)
    : WithoutSigils (mark :: (inner ++ mark :: text)) (mark :: (inner ++ mark :: plain))
  | sigil {c : Char} {text plain : List Char} (starts : startsName c = true)
    (more : WithoutSigils (c :: text) plain)
    : WithoutSigils ('$' :: c :: text) plain
  | other {c : Char} {text plain : List Char} (unquoted : isQuote c = false) (inside : c ≠ ';')
    (line : c ≠ '\n') (apart : c = '$' → Stops startsName text) (more : WithoutSigils text plain)
    : WithoutSigils (c :: text) (c :: plain)

/-- A text that is part of one statement, whatever stands around it. -/
def Undivided (text : List Char) : Prop :=
  ∀ part rest,
    statementsFrom none part (text ++ rest) = statementsFrom none (text.reverse ++ part) rest

-----------------------------------------------------------------------------------------
-- Steps of the readers
-----------------------------------------------------------------------------------------

theorem statementsFrom_outside {c : Char} (inside : c ≠ ';') (part rest : List Char)
    : statementsFrom none part (c :: rest)
        = statementsFrom (if isQuote c then some c else none) (c :: part) rest := by
  rw [statementsFrom.eq_def]
  simp [inside]

theorem statementsFrom_semicolon (part rest : List Char)
    : statementsFrom none part (';' :: rest) = part.reverse :: statementsFrom none [] rest := by
  rw [statementsFrom.eq_def]
  simp

theorem statementsFrom_escaped (mark c : Char) (part rest : List Char)
    : statementsFrom (some mark) part ('\\' :: c :: rest)
        = statementsFrom (some mark) (c :: '\\' :: part) rest := by
  rw [statementsFrom.eq_def]
  simp

theorem statementsFrom_quoted (mark : Char) {c : Char} (slash : c ≠ '\\') (part rest : List Char)
    : statementsFrom (some mark) part (c :: rest)
        = statementsFrom (if c = mark then none else some mark) (c :: part) rest := by
  rw [statementsFrom.eq_def]
  simp [slash]

theorem stripDollars_outside {c : Char} {rest : List Char}
    (kept : c = '$' → Stops startsName rest)
    : stripDollars none (c :: rest)
        = c :: stripDollars (if isQuote c then some c else none) rest := by
  have other : ¬ (c = '$' ∧ (rest.head?.map startsName).getD false = true) := by
    rintro ⟨dollar, starts⟩
    have stops := kept dollar
    cases rest with
    | nil => exact nomatch starts
    | cons d rest => exact Bool.noConfusion ((stops_cons.mp stops).symm.trans starts)
  rw [stripDollars.eq_def]
  simp [other]

theorem stripDollars_sigil {c : Char} (starts : startsName c = true) (rest : List Char)
    : stripDollars none ('$' :: c :: rest) = stripDollars none (c :: rest) := by
  rw [stripDollars.eq_def]
  simp [starts]

theorem stripDollars_escaped (mark c : Char) (rest : List Char)
    : stripDollars (some mark) ('\\' :: c :: rest)
        = '\\' :: c :: stripDollars (some mark) rest := by
  rw [stripDollars.eq_def]
  simp

theorem stripDollars_quoted (mark : Char) {c : Char} (slash : c ≠ '\\') (rest : List Char)
    : stripDollars (some mark) (c :: rest)
        = c :: stripDollars (if c = mark then none else some mark) rest := by
  rw [stripDollars.eq_def]
  simp [slash]

-----------------------------------------------------------------------------------------
-- Strings
-----------------------------------------------------------------------------------------

/-- A statement goes on behind a string, by induction on the inside of the string. -/
theorem statementsFrom_inside {mark : Char} {inner : List Char} (h : Inside mark inner)
    (quote : isQuote mark = true) (part rest : List Char)
    : statementsFrom (some mark) part (inner ++ mark :: rest)
        = statementsFrom none (mark :: (inner.reverse ++ part)) rest := by
  induction h generalizing part with
  | nil =>
      rw [List.nil_append, statementsFrom_quoted mark (ne_backslash_of_isQuote quote), if_pos rfl]
      rfl
  | escaped c more ih =>
      rw [List.cons_append, List.cons_append, statementsFrom_escaped, ih]
      simp
  | plain slash inner more ih =>
      rw [List.cons_append, statementsFrom_quoted mark slash, if_neg inner, ih]
      simp

/-- A string keeps its dollars, by induction on its inside. -/
theorem stripDollars_inside {mark : Char} {inner : List Char} (h : Inside mark inner)
    (quote : isQuote mark = true) (rest : List Char)
    : stripDollars (some mark) (inner ++ mark :: rest)
        = inner ++ mark :: stripDollars none rest := by
  induction h with
  | nil =>
      rw [List.nil_append, stripDollars_quoted mark (ne_backslash_of_isQuote quote), if_pos rfl]
      rfl
  | escaped c more ih =>
      rw [List.cons_append, List.cons_append, stripDollars_escaped, ih]
      rfl
  | plain slash inner more ih =>
      rw [List.cons_append, stripDollars_quoted mark slash, if_neg inner, ih]
      rfl

-----------------------------------------------------------------------------------------
-- Sigils
-----------------------------------------------------------------------------------------

/-- The sigils that are left out are those of the text, by induction on it. -/
theorem WithoutSigils.stripDollars_eq {text plain : List Char} (h : WithoutSigils text plain)
    : stripDollars none text = plain := by
  induction h with
  | nil => rfl
  | @string mark inner text plain quote inside line more ih =>
      have dollar : mark ≠ '$' := ne_of_kind quote rfl
      rw [stripDollars_outside (fun same => absurd same dollar), if_pos quote,
        stripDollars_inside inside quote, ih]
  | sigil starts more ih => rw [stripDollars_sigil starts, ih]
  | other unquoted inside line apart more ih =>
      rw [stripDollars_outside apart, if_neg (Bool.eq_false_iff.mp unquoted), ih]

/-- An expression is part of one statement, by induction on it. -/
theorem WithoutSigils.undivided {text plain : List Char} (h : WithoutSigils text plain)
    : Undivided text := by
  induction h with
  | nil => exact fun _ _ => rfl
  | @string mark inner text plain quote inside line more ih =>
      intro part rest
      have semicolon : mark ≠ ';' := ne_of_kind quote rfl
      rw [List.cons_append, List.append_assoc, List.cons_append, statementsFrom_outside semicolon,
        if_pos quote, statementsFrom_inside inside quote, ih]
      simp
  | sigil starts more ih =>
      intro part rest
      rw [List.cons_append, statementsFrom_outside (by decide)]
      exact (ih ('$' :: part) rest).trans (by simp)
  | other unquoted inside line apart more ih =>
      intro part rest
      rw [List.cons_append, statementsFrom_outside inside, if_neg (Bool.eq_false_iff.mp unquoted),
        ih]
      simp

/-- No line ends in an expression, by induction on it. -/
theorem WithoutSigils.oneLine {text plain : List Char} (h : WithoutSigils text plain)
    : '\n' ∉ text := by
  induction h with
  | nil => exact List.not_mem_nil
  | @string mark inner text plain quote inside line more ih =>
      have other : '\n' ≠ mark := (ne_of_kind quote rfl).symm
      simp [other, line, ih]
  | sigil starts more ih => exact List.not_mem_cons_of_ne_of_not_mem (by decide) ih
  | other unquoted inside line apart more ih =>
      exact List.not_mem_cons_of_ne_of_not_mem line.symm ih

/-- Every text has its sigils left out, if its strings are closed and no semicolon stands outside of
them; by induction on what stands outside. -/
theorem exists_withoutSigils {text shown : List Char} (h : Outside text shown)
    (undivided : ';' ∉ shown) (line : '\n' ∉ text)
    : ∃ plain, WithoutSigils text plain := by
  induction h with
  | nil => exact ⟨[], .nil⟩
  | @string mark inner rest shown quote inside more ih =>
      simp only [List.mem_cons, List.mem_append, not_or] at line
      obtain ⟨plain, later⟩ := ih undivided line.2.2.2
      exact ⟨_, .string quote inside line.2.1 later⟩
  | @plain c rest shown unquoted more ih =>
      rw [List.mem_cons, not_or] at undivided line
      obtain ⟨plain, later⟩ := ih undivided.2 line.2
      by_cases sigil : c = '$' ∧ ¬ Stops startsName rest
      · obtain ⟨rfl, goes⟩ := sigil
        cases rest with
        | nil => exact absurd (stops_nil startsName) goes
        | cons d rest =>
            rw [stops_cons, Bool.not_eq_false] at goes
            exact ⟨plain, .sigil goes later⟩
      · rw [not_and, not_not] at sigil
        exact ⟨c :: plain, .other unquoted (Ne.symm undivided.1) (Ne.symm line.1) sigil later⟩

-----------------------------------------------------------------------------------------
-- The statements of a line
-----------------------------------------------------------------------------------------

theorem Undivided.append {first second : List Char} (h : Undivided first) (next : Undivided second)
    : Undivided (first ++ second) := by
  intro part rest
  rw [List.append_assoc, h, next, List.reverse_append, List.append_assoc]

/-- Text without quotation marks and semicolons is part of one statement, by induction on it. -/
theorem undivided_of_plain {text : List Char} (h : ∀ c ∈ text, isQuote c = false ∧ c ≠ ';')
    : Undivided text := by
  induction text with
  | nil => exact fun _ _ => rfl
  | cons c text ih =>
      obtain ⟨⟨unquoted, inside⟩, others⟩ := List.forall_mem_cons.mp h
      intro part rest
      rw [List.cons_append, statementsFrom_outside inside, if_neg (Bool.eq_false_iff.mp unquoted),
        ih others]
      simp

/-- Statements are found between the semicolons that join them, by induction on them. -/
theorem statementsFrom_joinWith {parts : List (List Char)} (some : parts ≠ [])
    (h : ∀ part ∈ parts, Undivided part)
    : statementsFrom none [] (joinWith [';'] parts) = parts := by
  induction parts with
  | nil => exact absurd rfl some
  | cons part rest ih =>
      obtain ⟨first, others⟩ := List.forall_mem_cons.mp h
      cases rest with
      | nil =>
          have whole := first [] []
          rw [List.append_nil, List.append_nil] at whole
          rw [joinWith, whole, statementsFrom, List.reverse_reverse]
      | cons next rest =>
          rw [joinWith_cons_cons, first, List.singleton_append, statementsFrom_semicolon,
            ih (List.cons_ne_nil next rest) others]
          simp

/-- A line has its last statement up to its end, by the recursion of the reader. -/
theorem exists_last_statement (mark : Option Char) (part line : List Char)
    : ∃ front last, statementsFrom mark part line = front ++ [last]
        ∧ statementsFrom mark part (line ++ ['\r']) = front ++ [last ++ ['\r']] := by
  fun_induction statementsFrom mark part line with
  | case1 mark part =>
      refine ⟨[], part.reverse, rfl, ?_⟩
      cases mark with
      | none =>
          rw [List.nil_append, statementsFrom_outside (by decide), statementsFrom]
          simp
      | some mark =>
          rw [List.nil_append, statementsFrom_quoted mark (by decide), statementsFrom]
          simp
  | case2 part mark =>
      refine ⟨[], ('\\' :: part).reverse, rfl, ?_⟩
      rw [List.singleton_append, statementsFrom_escaped, statementsFrom]
      simp
  | case3 part mark d rest ih =>
      obtain ⟨front, last, read, longer⟩ := ih
      exact ⟨front, last, read, by
        rw [List.cons_append, List.cons_append, statementsFrom_escaped, longer]⟩
  | case4 part c rest mark slash ih =>
      obtain ⟨front, last, read, longer⟩ := ih
      exact ⟨front, last, read, by rw [List.cons_append, statementsFrom_quoted mark slash, longer]⟩
  | case5 part rest ih =>
      obtain ⟨front, last, read, longer⟩ := ih
      refine ⟨part.reverse :: front, last, by rw [read, List.cons_append], ?_⟩
      rw [List.cons_append, statementsFrom_semicolon, longer, List.cons_append]
  | case6 part c rest inside ih =>
      obtain ⟨front, last, read, longer⟩ := ih
      exact ⟨front, last, read, by rw [List.cons_append, statementsFrom_outside inside, longer]⟩

/-- The carriage return at the end of a line is in no statement. -/
theorem statements_withoutReturn (line : List Char)
    : statements (withoutReturn line) = statements line := by
  by_cases ending : line.getLast? = some '\r'
  · obtain ⟨front, rfl⟩ := List.getLast?_eq_some_iff.mp ending
    obtain ⟨first, last, read, longer⟩ := exists_last_statement none [] front
    have blank : trim (last ++ ['\r']) = trim last := by
      rw [← trim_trimRight, trimRight_append_of_isBlank rfl, trim_trimRight]
    rw [withoutReturn_append_return, statements, statements, read, longer, List.map_append,
      List.map_append, List.map_singleton, List.map_singleton, blank]
  · rw [withoutReturn_eq_self ending]

end QuizVariants.Script
