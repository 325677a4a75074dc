import QuizVariants.Proofs.Literal.Outside
import QuizVariants.Proofs.Literal.RoundTrip
import QuizVariants.Section.Comment

/-! Lines without comments.
A line of plain characters and texts in quotes is kept whole, whatever the quoted texts hold, as
long as no two of them touch: three marks in a row would open a text in triple quotes.
-/

namespace QuizVariants.Section

open QuizVariants.Literal
open QuizVariants.Text

/-- A line of plain characters and texts in quotes, no two of which touch. -/
inductive Intact : List Char → Prop where
  | nil : Intact []
  | plain {c : Char} {rest : List Char} (sign : c ≠ '#') (quote : isQuote c = false)
      (more : Intact rest) : Intact (c :: rest)
  | quoted {rest : List Char} (text : List Char) (apart : rest.head? ≠ some '"')
      (more : Intact rest) : Intact (Literal.quote text ++ rest)

/-- An intact text stays so behind plain characters, by induction on these. -/
theorem Intact.behind {text rest : List Char} (h : Intact rest)
    (plain : ∀ c ∈ text, c ≠ '#' ∧ isQuote c = false)
    : Intact (text ++ rest) := by
  induction text with
  | nil => exact h
  | cons c text ih =>
      obtain ⟨⟨sign, quote⟩, others⟩ := List.forall_mem_cons.mp plain
      exact .plain sign quote (ih others)

theorem plain_of_isBare {c : Char} (bare : isBare c = true) : c ≠ '#' ∧ isQuote c = false := by
  have apart (other : Char) (h : isBare other = false) : c ≠ other := ne_of_kind bare h
  exact ⟨apart '#' rfl, by simp [isQuote, apart '"' rfl, apart '\'' rfl]⟩

/-- Keeps the characters of a text. -/
def keepText (text : List Char) (line : List Char × Option OpenString)
    : List Char × Option OpenString :=
  (text ++ line.1, line.2)

/-- A character outside of strings that starts neither a comment nor a string is kept. -/
theorem scanLine_plain {c : Char} (sign : c ≠ '#') (quote : isQuote c = false) (rest : List Char)
    : scanLine none (c :: rest) = keep c (scanLine none rest) := by
  have inside : ¬ isQuote c = true := by simp [quote]
  -- The scanner looks three characters ahead for a triple of marks.
  rcases rest with _ | ⟨d, _ | ⟨e, rest⟩⟩
  · rw [scanLine.eq_7 c [] (by simp), if_neg sign, if_neg inside]
  · rw [scanLine.eq_7 c [d] (by simp), if_neg sign, if_neg inside]
  · rw [scanLine.eq_6, if_neg sign, if_neg inside]

/-- Such characters are kept whatever follows, by induction on them. -/
theorem scanLine_append_of_plain {text : List Char}
    (plain : ∀ c ∈ text, c ≠ '#' ∧ isQuote c = false) (rest : List Char)
    : scanLine none (text ++ rest) = keepText text (scanLine none rest) := by
  induction text with
  | nil => rfl
  | cons c text ih =>
      obtain ⟨⟨sign, quote⟩, others⟩ := List.forall_mem_cons.mp plain
      rw [List.cons_append, scanLine_plain sign quote, ih others]
      rfl

/-- A mark that is not tripled opens a string. -/
theorem scanLine_open {mark : Char} {rest : List Char} (quote : isQuote mark = true)
    (single : ∀ more, rest ≠ mark :: mark :: more)
    : scanLine none (mark :: rest) = keep mark (scanLine (some ⟨mark, false⟩) rest) := by
  have sign : ¬ mark = '#' := ne_of_kind quote rfl
  rcases rest with _ | ⟨d, _ | ⟨e, rest⟩⟩
  · rw [scanLine.eq_7 mark [] (by simp), if_neg sign, if_pos quote]
  · rw [scanLine.eq_7 mark [d] (by simp), if_neg sign, if_pos quote]
  · have notTriple : ¬ (d = mark ∧ e = mark) := by
      rintro ⟨rfl, rfl⟩
      exact single rest rfl
    rw [scanLine.eq_6, if_neg sign, if_pos quote, if_neg notTriple]

/-- A string ends at its mark, by induction on its inside. -/
theorem scanLine_of_inside {mark : Char} {inner : List Char} (h : Inside mark inner)
    (quote : isQuote mark = true) (rest : List Char)
    : scanLine (some ⟨mark, false⟩) (inner ++ mark :: rest)
        = keepText (inner ++ [mark]) (scanLine none rest) := by
  induction h with
  | nil =>
      have slash : ∀ (d : Char) (more : List Char), mark = '\\' → rest = d :: more → False :=
        fun _ _ same => absurd same (ne_backslash_of_isQuote quote)
      rw [List.nil_append, scanLine.eq_5 mark mark rest slash, if_pos rfl]
      rfl
  | @escaped c inner _ ih =>
      rw [List.cons_append, List.cons_append, scanLine.eq_4, ih]
      rfl
  | @plain c inner slash apart _ ih =>
      have other : ∀ (d : Char) (more : List Char), c = '\\' → inner ++ mark :: rest = d :: more
          → False :=
        fun _ _ same => absurd same slash
      rw [List.cons_append, scanLine.eq_5 mark c _ other, if_neg apart, ih]
      rfl

/-- A string in single marks is kept where no mark of its kind follows, which could make three marks
in a row. -/
theorem scanLine_single {mark : Char} {inner rest : List Char} (quote : isQuote mark = true)
    (inside : Inside mark inner) (apart : rest.head? ≠ some mark)
    : scanLine none (mark :: (inner ++ mark :: rest))
        = keepText (mark :: (inner ++ [mark])) (scanLine none rest) := by
  have single : ∀ more, inner ++ mark :: rest ≠ mark :: mark :: more := by
    intro more same
    cases inner with
    | nil =>
        have behind : rest = mark :: more := (List.cons.inj same).2
        exact apart (congrArg List.head? behind)
    | cons c inner =>
        have first : c = mark := (List.cons.inj same).1
        exact inside.head?_ne quote (congrArg some first)
  rw [scanLine_open quote single, scanLine_of_inside inside quote]
  rfl

/-- An intact text is kept whole, and no string stays open after it; by induction on the text. -/
theorem scanLine_append_of_intact {text rest : List Char} (h : Intact text)
    (apart : rest.head? ≠ some '"')
    : scanLine none (text ++ rest) = keepText text (scanLine none rest) := by
  induction h with
  | nil => rfl
  | @plain c text sign quote _ ih =>
      rw [List.cons_append, scanLine_plain sign quote, ih]
      rfl
  | @quoted more text own _ ih =>
      have touches : (more ++ rest).head? ≠ some '"' := by
        cases more with
        | nil => exact apart
        | cons c more => exact own
      have written : Literal.quote text ++ more ++ rest
          = '"' :: (text.flatMap escapeChar ++ '"' :: (more ++ rest)) := by
        simp [Literal.quote]
      rw [written, scanLine_single rfl (inside_escaped text) touches, ih]
      simp [keepText, Literal.quote]

/-- A line that the scanner keeps whole, with no string open after it. -/
def Kept (line : List Char) : Prop :=
  scanLine none line = (line, none)

theorem Intact.kept {line : List Char} (h : Intact line) : Kept line := by
  have whole := @scanLine_append_of_intact line [] h nofun
  rwa [List.append_nil, scanLine.eq_1, keepText, List.append_nil] at whole

/-- Kept lines are kept one after the other, by induction on them. -/
theorem literalLines_of_kept {ls : List (List Char)} (h : ∀ line ∈ ls, Kept line)
    : literalLines none ls = ls := by
  induction ls with
  | nil => rfl
  | cons line rest ih =>
      obtain ⟨first, others⟩ := List.forall_mem_cons.mp h
      rw [literalLines, show scanLine none line = _ from first]
      exact congrArg (List.cons line) (ih others)

end QuizVariants.Section
