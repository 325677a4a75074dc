import QuizVariants.Literal.Reader
import QuizVariants.Proofs.Text.Layout

/-! Texts in quotes.
Inside quotes every character is written as itself or behind a backslash, so that whoever skips
escaped characters finds the closing mark.
-/

namespace QuizVariants.Literal

open QuizVariants.Text

/-- A text in quotes without its opening mark. -/
def quoteTail (text : List Char) : List Char :=
  text.flatMap escapeChar ++ ['"']

theorem quote_eq (text : List Char) : quote text = '"' :: quoteTail text :=
  rfl

theorem quoteTail_cons (c : Char) (text : List Char)
    : quoteTail (c :: text) = escapeChar c ++ quoteTail text := by
  simp [quoteTail]

/-- A character is written as itself, or as some character behind a backslash. -/
theorem escapeChar_cases (c : Char)
    : (escapeChar c = [c] ∧ c ≠ '\\' ∧ c ≠ '"' ∧ c ≠ '\n')
      ∨ ∃ d, escapeChar c = ['\\', d] ∧ d ≠ '\n' := by
  unfold escapeChar
  split
  · exact Or.inr ⟨'\\', rfl, by decide⟩
  · split
    · exact Or.inr ⟨'"', rfl, by decide⟩
    · split
      · exact Or.inr ⟨'n', rfl, by decide⟩
      · split
        · exact Or.inr ⟨'t', rfl, by decide⟩
        · next slash mark line _ => exact Or.inl ⟨rfl, slash, mark, line⟩

/-- A text in quotes has no newline, by induction on the text. -/
theorem newline_not_mem_quoteTail (text : List Char) : '\n' ∉ quoteTail text := by
  induction text with
  | nil => decide
  | cons c text ih =>
      rw [quoteTail_cons, List.mem_append, not_or]
      refine ⟨?_, ih⟩
      rcases escapeChar_cases c with ⟨same, _, _, line⟩ | ⟨d, escaped, line⟩
      · rw [same, List.mem_singleton]
        exact fun h => line h.symm
      · rw [escaped, List.mem_cons, List.mem_singleton, not_or]
        exact ⟨by decide, fun h => line h.symm⟩

theorem newline_not_mem_quote (text : List Char) : '\n' ∉ quote text := by
  rw [quote_eq, List.mem_cons, not_or]
  exact ⟨by decide, newline_not_mem_quoteTail text⟩

theorem trimmed_quote (text : List Char) : Trimmed (quote text) :=
  trimmed_between (by decide) (by decide) (text.flatMap escapeChar)

/-- Reading undoes writing, whatever follows the closing mark. -/
theorem unquote_quoteTail (text rest : List Char)
    : unquote '"' (quoteTail text ++ rest) = some (text, rest) := by
  have read := unquote_quoted text rest
  rwa [quoteTail, List.append_assoc, List.singleton_append]

/-- Only an empty text has its closing mark right behind the opening one. -/
theorem head?_quoteTail {text : List Char} (h : (quoteTail text).head? = some '"') : text = [] := by
  cases text with
  | nil => rfl
  | cons c text =>
      rw [quoteTail_cons] at h
      rcases escapeChar_cases c with ⟨same, _, mark, _⟩ | ⟨d, escaped, _⟩
      · rw [same] at h
        exact absurd (Option.some.inj h) mark
      · rw [escaped] at h
        exact absurd (Option.some.inj h) (by decide)

/-- A text in quotes does not open with three marks. -/
theorem after?_triple_quote (mark : Char) (text : List Char)
    : after? (triple mark) (quote text) = none := by
  cases found : after? (triple mark) (quote text) with
  | none => rfl
  | some rest =>
      have split := after?_eq_some_iff.mp found
      rw [quote_eq, triple] at split
      obtain ⟨rfl, tail⟩ := List.cons.inj split
      have empty := head?_quoteTail (congrArg List.head? tail)
      rw [empty] at tail
      exact nomatch tail

theorem betweenTriples?_quote (mark : Char) (text : List Char)
    : betweenTriples? mark (quote text) = none := by
  rw [betweenTriples?, after?_triple_quote]
  rfl

theorem readString?_quote (text : List Char)
    : readString? (quote text) = some (.quoted (.ofList text)) := by
  have read := unquote_quoteTail text []
  rw [List.append_nil] at read
  rw [readString?, betweenTriples?_quote, betweenTriples?_quote, quote_eq]
  simp [singleQuoted?, isQuote, read]

end QuizVariants.Literal
