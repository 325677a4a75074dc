import QuizVariants.Proofs.Section.Comment
import QuizVariants.Section.Primary

/-! Bodies of sections.
A body without comments keeps its lines, and lines that are trimmed and show something are found
again in it.
-/

namespace QuizVariants.Section

open QuizVariants.Text

/-- Shown lines are the lines that a text of them shows; witness: none is trimmed or left out. -/
theorem shownLines_of_lines {text : List Char} {ls : List (List Char)} (same : lines text = ls)
    (h : ∀ line ∈ ls, Shown line)
    : shownLines text = ls := by
  have trims : ls.map trim = ls := map_eq_self (fun line member => (h line member).trimmed)
  rw [shownLines, same, trims]
  refine List.filter_eq_self.mpr (fun line member => ?_)
  simp [(h line member).shows]

theorem shownLines_layOut {ls : List (List Char)} (h : ∀ line ∈ ls, Shown line)
    : shownLines (layOut ls) = ls :=
  shownLines_of_lines (lines_layOut (fun line member => (h line member).oneLine)) h

theorem shownLines_joinWith {ls : List (List Char)} (h : ∀ line ∈ ls, Shown line)
    : shownLines (joinWith ['\n'] ls) = ls :=
  shownLines_of_lines (lines_joinWith h) h

/-- Trimming shown lines takes the end of the last one. -/
theorem trim_layOut {ls : List (List Char)} (h : ∀ line ∈ ls, Shown line)
    : trim (layOut ls) = joinWith ['\n'] ls := by
  cases ls with
  | nil => rfl
  | cons line rest =>
      have trimmed : Trimmed (joinWith ['\n'] (line :: rest)) :=
        trimmed_joinWith h
      rw [layOut_eq_joinWith (List.cons_ne_nil line rest), trimmed.trim_append_of_isBlank (by decide)]

/-- Lines that show something stay in a body, without the blanks at their ends. -/
theorem layOut_of_showing {ls : List (List Char)} (h : ∀ line ∈ ls, allBlank line = false)
    : (ls.filter (fun line => !allBlank line)).flatMap (fun line => trimRight line ++ ['\n'])
        = layOut (ls.map trimRight) := by
  have all : ls.filter (fun line => !allBlank line) = ls :=
    List.filter_eq_self.mpr (fun line member => by simp [h line member])
  rw [all, layOut, List.flatMap_map]

/-- The body of a section of literals whose lines are kept. -/
theorem Raw.text_of_kept {raw : Raw} (literals : holdsLiterals raw.name = true)
    (h : ∀ line ∈ raw.body, Kept line ∧ allBlank line = false)
    : raw.text = layOut (raw.body.map trimRight) := by
  rw [Raw.text, literals, if_pos rfl, literalLines_of_kept (fun line member => (h line member).1),
    layOut_of_showing (fun line member => (h line member).2)]

/-- The body of any other section whose lines have no number sign. -/
theorem Raw.text_of_plain {raw : Raw} (texts : holdsLiterals raw.name = false)
    (h : ∀ line ∈ raw.body, '#' ∉ line ∧ allBlank line = false)
    : raw.text = layOut (raw.body.map trimRight) := by
  have uncommented : plainLines raw.body = raw.body := by
    refine map_eq_self (fun line member => ?_)
    refine List.takeWhile_eq_self_iff.mpr (fun c found => ?_)
    exact bne_iff_ne.mpr (fun same => (h line member).1 (same ▸ found))
  simp only [Raw.text, texts, Bool.false_eq_true, if_false]
  rw [uncommented, layOut_of_showing (fun line member => (h line member).2)]

end QuizVariants.Section
