import Mathlib.Data.List.Chain
import QuizVariants.Proofs.Section.Comment
import QuizVariants.Proofs.Section.Header

/-! Texts in quotes on a line.
A text in quotes is read back whatever follows it, and has no line end in it. The scanner of
comments passes over the texts in quotes on a line whatever they hold: it keeps the line up to the
comment behind it, and is outside of strings there.
-/

namespace QuizVariants.Section

open QuizVariants.Literal

-----------------------------------------------------------------------------------------
-- Lines with texts in quotes
-----------------------------------------------------------------------------------------

/-- Characters that start neither a comment nor a string, at least one. -/
structure Filling where
  text : List Char
  shows : text ≠ []
  plain : ∀ c ∈ text, c ≠ '#' ∧ isQuote c = false

/-- A stretch of a line: a text in quotes, or what stands between two of them. -/
inductive Stretch where
  | between (filling : Filling)
  | quoted (text : List Char)

namespace Stretch

def isQuoted : Stretch → Bool
  | .between _ => false
  | .quoted _ => true

def written : Stretch → List Char
  | .between filling => filling.text
  | .quoted text => Literal.quote text

end Stretch

/-- A line of texts in quotes and the characters between them. Two texts in quotes do not adjoin. -/
structure QuotedLine where
  stretches : List Stretch
  apart : stretches.IsChain (fun first next => ¬ (first.isQuoted ∧ next.isQuoted))

def QuotedLine.written (line : QuotedLine) : List Char :=
  line.stretches.flatMap Stretch.written

-----------------------------------------------------------------------------------------
-- What the scanner keeps of a line
-----------------------------------------------------------------------------------------

/-- A stretch that is not in quotes does not start with a mark. -/
theorem Stretch.head?_written_ne {stretch : Stretch} (h : stretch.isQuoted = false)
    (rest : List Char)
    : (stretch.written ++ rest).head? ≠ some '"' := by
  cases stretch with
  | quoted text => exact nomatch h
  | between filling =>
      obtain ⟨c, others, split⟩ := List.exists_cons_of_ne_nil filling.shows
      have plain := filling.plain c (split ▸ List.mem_cons_self)
      intro mark
      rw [written, split] at mark
      have same : c = '"' := Option.some.inj mark
      exact Text.ne_of_kind (rfl : isQuote '"' = true) plain.2 same.symm

/-- A line of stretches is intact, by induction on them. -/
theorem intact_stretches {stretches : List Stretch}
    (apart : stretches.IsChain (fun first next => ¬ (first.isQuoted ∧ next.isQuoted)))
    : Intact (stretches.flatMap Stretch.written) := by
  induction stretches with
  | nil => exact .nil
  | cons stretch rest ih =>
      have more := ih apart.tail
      rw [List.flatMap_cons]
      cases stretch with
      | between filling => exact more.behind filling.plain
      | quoted text =>
          refine .quoted text ?_ more
          cases rest with
          | nil => exact nofun
          | cons next rest =>
              have between : ¬ (true ∧ next.isQuoted) := (List.isChain_cons_cons.mp apart).1
              have unquoted : next.isQuoted = false := by simpa using between
              exact next.head?_written_ne unquoted _

theorem QuotedLine.intact (line : QuotedLine) : Intact line.written :=
  intact_stretches line.apart

/-- A comment is not kept. -/
theorem scanLine_comment {text : List Char} (h : IsComment text)
    : scanLine none text = ([], none) := by
  cases text with
  | nil => rw [scanLine.eq_1]; rfl
  | cons c rest =>
      obtain rfl : c = '#' := h c rfl
      rcases rest with _ | ⟨d, _ | ⟨e, rest⟩⟩
      · rw [scanLine.eq_7 '#' [] (by simp), if_pos rfl]
      · rw [scanLine.eq_7 '#' [d] (by simp), if_pos rfl]
      · rw [scanLine.eq_6, if_pos rfl]

/-- An intact text is kept up to the comment behind it. -/
theorem Intact.kept_before_comment {text comment : List Char} (h : Intact text)
    (commented : IsComment comment)
    : scanLine none (text ++ comment) = (text, none) := by
  have apart : comment.head? ≠ some '"' := by
    intro mark
    exact absurd (commented '"' mark) (by decide)
  rw [scanLine_append_of_intact h apart, scanLine_comment commented, keepText, List.append_nil]

-----------------------------------------------------------------------------------------
-- Texts in quotes
-----------------------------------------------------------------------------------------

/-- A text in quotes is the same to all that read it.
Behind its opening mark it is read as itself, up to its closing mark and whatever follows that. It
has no line end in it. A line of such texts with other characters between them is kept whole, and no
string is open behind it, so that a comment there is cut off. -/
theorem quote_withstands_context (text rest : List Char) (line : QuotedLine)
    : unquote '"' ((Literal.quote text).tail ++ rest) = some (text, rest)
      ∧ '\n' ∉ Literal.quote text
      ∧ scanLine none line.written = (line.written, none)
      ∧ ∀ comment, IsComment comment
        → scanLine none (line.written ++ comment) = (line.written, none) := by
  refine ⟨unquote_quoteTail text rest, newline_not_mem_quote text, line.intact.kept, ?_⟩
  intro comment commented
  exact line.intact.kept_before_comment commented

/-- A line with an empty text, a text that ends in a backslash, and a text that could be taken for
the start of a string over several lines and for a comment. -/
def markedLine : QuotedLine :=
  { stretches :=
      [.between ⟨['a', '\\', ' '], List.cons_ne_nil _ _, by simp [isQuote]⟩, .quoted [],
        .between ⟨[','], List.cons_ne_nil _ _, by simp [isQuote]⟩, .quoted ['\\'],
        .between ⟨[':'], List.cons_ne_nil _ _, by simp [isQuote]⟩, .quoted ['"', '"', '"', '#']]
    apart := by simp [Stretch.isQuoted] }

theorem quote_withstands_marks
    : markedLine.written = "a\\ \"\",\"\\\\\":\"\\\"\\\"\\\"#\"".toList
      ∧ scanLine none (markedLine.written ++ "# b \"".toList) = (markedLine.written, none)
      ∧ unquote '"' ((Literal.quote ['\\']).tail ++ "# b \"".toList)
        = some (['\\'], "# b \"".toList) := by
  have comment : IsComment "# b \"".toList := by decide
  obtain ⟨read, _, _, kept⟩ := quote_withstands_context ['\\'] "# b \"".toList markedLine
  exact ⟨by decide, kept _ comment, read⟩

/-- An empty text that adjoins another one opens a string over several lines. -/
example
    : scanLine none (Literal.quote [] ++ Literal.quote ['a'])
      = ("\"\"\"a\"".toList, some ⟨'"', true⟩) := by
  decide +kernel

end QuizVariants.Section
