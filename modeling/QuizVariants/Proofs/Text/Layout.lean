import QuizVariants.Proofs.Text.Trimming
import QuizVariants.Text.Lines
import QuizVariants.Text.Search

/-! Lines put one under the other.
A text that is laid out line by line has these lines again, as long as none of them holds a newline
or ends in a carriage return.
-/

namespace QuizVariants.Text

/-- A text that can stand on a line of its own. -/
def OneLine (text : List Char) : Prop :=
  '\n' ∉ text ∧ text.getLast? ≠ some '\r'

/-- A text on one line whose end shows does not run into the end of its line. -/
theorem Trimmed.oneLine {text : List Char} (h : Trimmed text) (plain : '\n' ∉ text)
    : OneLine text := by
  refine ⟨plain, fun ending => ?_⟩
  have shows := (trimmed_iff.mp h).2 '\r' ending
  exact absurd shows (by decide)

/-- A trimmed text on one line that shows something. -/
structure Shown (text : List Char) : Prop where
  trimmed : Trimmed text
  shows : text ≠ []
  plain : '\n' ∉ text

theorem Shown.oneLine {text : List Char} (h : Shown text) : OneLine text :=
  h.trimmed.oneLine h.plain

/-- No line of a text has a newline, by induction on the text. -/
theorem newline_not_mem_of_mem_lines {text line : List Char} (h : line ∈ lines text)
    : '\n' ∉ line := by
  have read (front : List Char) (plain : '\n' ∉ front) (member : line ∈ linesFrom front text)
      : '\n' ∉ line := by
    clear h
    induction text generalizing front with
    | nil =>
        rw [linesFrom] at member
        split at member
        · cases member
        · obtain rfl := List.mem_singleton.mp member
          simpa using plain
    | cons c text ih =>
        rw [linesFrom] at member
        split at member
        · rcases List.mem_cons.mp member with rfl | later
          · have shorter : dropReturn front ⊆ front := by
              unfold dropReturn
              split
              · exact List.subset_cons_self _ _
              · exact List.Subset.refl _
            exact fun newline => plain (shorter (List.mem_reverse.mp newline))
          · exact ih [] List.not_mem_nil later
        · next other => exact ih (c :: front) (by simp [plain, Ne.symm other]) member
  exact read [] List.not_mem_nil h

-----------------------------------------------------------------------------------------
-- Lines with their ends
-----------------------------------------------------------------------------------------

/-- Lines with their ends. -/
def layOut (lines : List (List Char)) : List Char :=
  lines.flatMap (fun line => line ++ ['\n'])

theorem layOut_cons (line : List Char) (rest : List (List Char))
    : layOut (line :: rest) = line ++ '\n' :: layOut rest := by
  simp [layOut]

theorem layOut_append (first second : List (List Char))
    : layOut (first ++ second) = layOut first ++ layOut second :=
  List.flatMap_append

theorem dropReturn_reverse {line : List Char} (h : line.getLast? ≠ some '\r')
    : dropReturn line.reverse = line.reverse := by
  rw [← List.head?_reverse] at h
  unfold dropReturn
  split
  · next ending => exact absurd (congrArg List.head? ending) h
  · rfl

theorem lines_append_newline {line : List Char} (h : OneLine line) (rest : List Char)
    : lines (line ++ '\n' :: rest) = line :: lines rest := by
  have ending : dropReturn (line.reverse ++ []) = line.reverse ++ [] := by
    simpa using dropReturn_reverse h.2
  exact linesFrom_append_newline [] line rest h.1 ending

/-- A text that stands on lines of its own, whatever follows it. -/
def StandsOn (text : List Char) (ls : List (List Char)) : Prop :=
  ∀ rest, lines (text ++ rest) = ls ++ lines rest

theorem standsOn_nil : StandsOn [] [] :=
  fun _ => rfl

theorem StandsOn.append {first second : List Char} {ls more : List (List Char)}
    (h : StandsOn first ls) (next : StandsOn second more)
    : StandsOn (first ++ second) (ls ++ more) := by
  intro rest
  rw [List.append_assoc, h, next, List.append_assoc]

theorem StandsOn.lines_eq {text : List Char} {ls : List (List Char)} (h : StandsOn text ls)
    : lines text = ls := by
  have whole := h []
  rwa [List.append_nil, lines_nil, List.append_nil] at whole

/-- Laid out lines stand on their own, by induction on them. -/
theorem standsOn_layOut {ls : List (List Char)} (h : ∀ line ∈ ls, OneLine line)
    : StandsOn (layOut ls) ls := by
  intro rest
  induction ls with
  | nil => rfl
  | cons line more ih =>
      obtain ⟨first, others⟩ := List.forall_mem_cons.mp h
      rw [layOut_cons, List.append_assoc, List.cons_append, lines_append_newline first, ih others]
      rfl

theorem lines_layOut {ls : List (List Char)} (h : ∀ line ∈ ls, OneLine line)
    : lines (layOut ls) = ls :=
  (standsOn_layOut h).lines_eq

/-- A text with a newline behind it stands on its lines, by induction on it. -/
theorem standsOn_newline (text : List Char)
    : StandsOn (text ++ ['\n']) (lines (text ++ ['\n'])) := by
  have split (read rest : List Char)
      : linesFrom read (text ++ '\n' :: rest) = linesFrom read (text ++ ['\n']) ++ lines rest := by
    induction text generalizing read with
    | nil => rfl
    | cons c text ih =>
        by_cases newline : c = '\n'
        · simp only [List.cons_append, linesFrom, if_pos newline, ih]
        · simp only [List.cons_append, linesFrom, if_neg newline, ih]
  intro rest
  rw [List.append_assoc]
  exact split [] rest

-----------------------------------------------------------------------------------------
-- Lines with carriage returns
-----------------------------------------------------------------------------------------

/-- A line without the carriage return at its end. -/
def withoutReturn (line : List Char) : List Char :=
  (dropReturn line.reverse).reverse

theorem withoutReturn_append_return (line : List Char) : withoutReturn (line ++ ['\r']) = line := by
  simp [withoutReturn, dropReturn]

theorem withoutReturn_eq_self {line : List Char} (h : line.getLast? ≠ some '\r')
    : withoutReturn line = line := by
  rw [withoutReturn, dropReturn_reverse h, List.reverse_reverse]

/-- A line loses the carriage return at its end; by induction on it, its read part being kept in
reverse. -/
theorem lines_append_newline_of_plain {line : List Char} (plain : '\n' ∉ line) (rest : List Char)
    : lines (line ++ '\n' :: rest) = withoutReturn line :: lines rest := by
  have read (front : List Char)
      : linesFrom front (line ++ '\n' :: rest)
        = (dropReturn (line.reverse ++ front)).reverse :: lines rest := by
    induction line generalizing front with
    | nil => rfl
    | cons c line ih =>
        simp only [List.mem_cons, not_or] at plain
        have other : ¬ c = '\n' := fun same => plain.1 same.symm
        rw [List.cons_append, linesFrom, if_neg other, ih plain.2]
        simp
  have whole := read []
  rwa [List.append_nil] at whole

/-- Laid out lines are found without their carriage returns, by induction on them. -/
theorem lines_layOut_of_plain {ls : List (List Char)} (h : ∀ line ∈ ls, '\n' ∉ line)
    : lines (layOut ls) = ls.map withoutReturn := by
  induction ls with
  | nil => rfl
  | cons line more ih =>
      obtain ⟨first, others⟩ := List.forall_mem_cons.mp h
      rw [layOut_cons, lines_append_newline_of_plain first, ih others, List.map_cons]

-----------------------------------------------------------------------------------------
-- Lines with newlines between them
-----------------------------------------------------------------------------------------

/-- A text without newlines is one line, or none when it is empty. -/
theorem linesFrom_of_plain {read text : List Char} (plain : '\n' ∉ text)
    (shows : read ≠ [] ∨ text ≠ [])
    : linesFrom read text = [read.reverse ++ text] := by
  induction text generalizing read with
  | nil =>
      have some : read ≠ [] := shows.resolve_right (fun h => h rfl)
      cases read with
      | nil => exact absurd rfl some
      | cons c rest => simp [linesFrom]
  | cons c text ih =>
      simp only [List.mem_cons, not_or] at plain
      have other : ¬ c = '\n' := fun same => plain.1 same.symm
      rw [linesFrom, if_neg other, ih plain.2 (Or.inl (List.cons_ne_nil c read))]
      simp

/-- The end of the last line may be left out. -/
theorem layOut_eq_joinWith {ls : List (List Char)} (some : ls ≠ [])
    : layOut ls = joinWith ['\n'] ls ++ ['\n'] := by
  induction ls with
  | nil => exact absurd rfl some
  | cons line rest ih =>
      cases rest with
      | nil => simp [layOut, joinWith]
      | cons next rest =>
          rw [layOut_cons, ih (List.cons_ne_nil next rest)]
          simp [joinWith]

/-- Lines are found without their carriage returns, but for the last one, which is no line when it
is empty; by induction on the lines before it. -/
theorem lines_joinWith_of_plain {front : List (List Char)} {last : List Char}
    (h : ∀ line ∈ front, '\n' ∉ line) (plain : '\n' ∉ last)
    : lines (joinWith ['\n'] (front ++ [last]))
        = front.map withoutReturn ++ if last.isEmpty then [] else [last] := by
  induction front with
  | nil =>
      cases last with
      | nil => rfl
      | cons c last => exact linesFrom_of_plain plain (Or.inr (List.cons_ne_nil c last))
  | cons line front ih =>
      obtain ⟨first, others⟩ := List.forall_mem_cons.mp h
      have split : joinWith ['\n'] (line :: front ++ [last])
          = line ++ '\n' :: joinWith ['\n'] (front ++ [last]) := by
        cases front <;> simp [joinWith]
      rw [split, lines_append_newline_of_plain first, ih others]
      rfl

/-- Lines with characters are found without the end of the last one, too; by induction on them. -/
theorem lines_joinWith_of_oneLine {ls : List (List Char)}
    (h : ∀ line ∈ ls, OneLine line ∧ line ≠ [])
    : lines (joinWith ['\n'] ls) = ls := by
  induction ls with
  | nil => rfl
  | cons line rest ih =>
      obtain ⟨⟨first, shows⟩, others⟩ := List.forall_mem_cons.mp h
      cases rest with
      | nil => exact linesFrom_of_plain first.1 (Or.inr shows)
      | cons next rest =>
          have split : joinWith ['\n'] (line :: next :: rest)
              = line ++ '\n' :: joinWith ['\n'] (next :: rest) := by
            simp [joinWith]
          rw [split, lines_append_newline first, ih others]

theorem lines_joinWith {ls : List (List Char)} (h : ∀ line ∈ ls, Shown line)
    : lines (joinWith ['\n'] ls) = ls :=
  lines_joinWith_of_oneLine (fun line member => ⟨(h line member).oneLine, (h line member).shows⟩)

/-- A character of joined texts is one of a text or of the separator. -/
theorem mem_joinWith {c : Char} {separator : List Char} {parts : List (List Char)}
    (h : c ∈ joinWith separator parts)
    : c ∈ separator ∨ ∃ part ∈ parts, c ∈ part := by
  induction parts with
  | nil => exact nomatch h
  | cons part parts ih =>
      cases parts with
      | nil => exact Or.inr ⟨part, List.mem_cons_self, h⟩
      | cons next parts =>
          rcases List.mem_append.mp h with first | others
          · rcases List.mem_append.mp first with inside | between
            · exact Or.inr ⟨part, List.mem_cons_self, inside⟩
            · exact Or.inl between
          · rcases ih others with between | ⟨other, member, inside⟩
            · exact Or.inl between
            · exact Or.inr ⟨other, List.mem_cons_of_mem part member, inside⟩

/-- The first characters of joined lines are those of the first line. -/
theorem head?_joinWith {line : List Char} (shows : line ≠ []) (separator : List Char)
    (rest : List (List Char))
    : (joinWith separator (line :: rest)).head? = line.head? := by
  cases line with
  | nil => exact absurd rfl shows
  | cons c line => cases rest <;> rfl

/-- The last character of joined lines is that of the last one, if that shows something. -/
theorem getLast?_joinWith {line : List Char} (shows : line ≠ []) (separator : List Char)
    (before : List (List Char))
    : (joinWith separator (before ++ [line])).getLast? = line.getLast? := by
  induction before with
  | nil => rfl
  | cons first before ih =>
      have split : joinWith separator (first :: before ++ [line])
          = first ++ separator ++ joinWith separator (before ++ [line]) := by
        cases before <;> rfl
      have some : line.getLast?.isSome := List.getLast?_isSome.mpr shows
      rw [split, List.getLast?_append, ih, Option.or_of_isSome some]

/-- Joined texts that show something are trimmed if all of them are. -/
theorem trimmed_joinWith {separator : List Char} {parts : List (List Char)}
    (h : ∀ part ∈ parts, Shown part)
    : Trimmed (joinWith separator parts) := by
  cases parts with
  | nil => exact trimmed_nil
  | cons part rest =>
      obtain ⟨before, last, split⟩ := List.eq_nil_or_concat (part :: rest) |>.resolve_left
        (List.cons_ne_nil part rest)
      refine trimmed_iff.mpr ⟨?_, ?_⟩
      · have first := h part List.mem_cons_self
        rw [head?_joinWith first.shows]
        exact (trimmed_iff.mp first.trimmed).1
      · have final := h last (by simp [split])
        rw [split, List.concat_eq_append, getLast?_joinWith final.shows]
        exact (trimmed_iff.mp final.trimmed).2

end QuizVariants.Text
