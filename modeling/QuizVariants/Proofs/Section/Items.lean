import QuizVariants.Proofs.Section.Body

/-! Display text and choices read back.
Text on one line is its own body. A choice starts with a dash and goes on for as many lines as it
has, so that the dashes tell the choices of a body apart.
-/

namespace QuizVariants.Section

open QuizVariants.Text

/-- A text that a section of display text holds as it stands. -/
structure IsText (text : List Char) : Prop where
  trimmed : Trimmed text
  plain : '\n' ∉ text
  uncommented : '#' ∉ text
  noHeader : header? text = none
  cleaned : Markup.clean text = text

/-- The first line of a choice, and the lines after it, as a section of choices holds them. -/
structure IsItem (first : List Char) (rest : List (List Char)) : Prop where
  trimmed : Trimmed first
  plain : '\n' ∉ first
  uncommented : '#' ∉ first
  continuation : ∀ line ∈ rest,
    Shown line ∧ '#' ∉ line ∧ line.head? ≠ some '-' ∧ header? line = none

-----------------------------------------------------------------------------------------
-- The line that starts a choice
-----------------------------------------------------------------------------------------

/-- A line that starts a choice. -/
def dashLine (first : List Char) : List Char :=
  '-' :: ' ' :: first

/-- A dash in front of a trimmed text that shows something makes a trimmed text. -/
theorem trimmed_dashLine {c : Char} {text : List Char} (trimmed : Trimmed (c :: text))
    : Trimmed (dashLine (c :: text)) := by
  refine trimmed_iff.mpr ⟨?_, ?_⟩
  · rintro _ ⟨⟩
    rfl
  · simp only [dashLine, List.getLast?_cons_cons]
    exact (trimmed_iff.mp trimmed).2

/-- Without the blanks at its end, a line that starts a choice shows at least the dash. -/
theorem shown_dashLine {first : List Char} (trimmed : Trimmed first) (plain : '\n' ∉ first)
    : Shown (trimRight (dashLine first)) := by
  -- Behind the dash of an empty first line there is only a blank.
  cases first with
  | nil => exact ⟨rfl, List.cons_ne_nil _ _, by decide⟩
  | cons c text =>
      have ends := trimmed_dashLine trimmed
      rw [ends.trimRight_eq]
      refine ⟨ends, List.cons_ne_nil _ _, ?_⟩
      simpa [dashLine] using plain

/-- A line that starts a choice does not run into the end of its line. -/
theorem oneLine_dashLine {first : List Char} (trimmed : Trimmed first) (plain : '\n' ∉ first)
    : OneLine (dashLine first) := by
  cases first with
  | nil => exact ⟨by decide, by decide⟩
  | cons c text =>
      refine (trimmed_dashLine trimmed).oneLine ?_
      simpa [dashLine] using plain

theorem addItemLine_dashLine {first : List Char} (trimmed : Trimmed first)
    (items : List (List Char))
    : addItemLine items (trimRight (dashLine first)) = some (first :: items) := by
  cases first with
  | nil => rfl
  | cons c text =>
      have inner : trim (' ' :: c :: text) = c :: text :=
        (trim_cons_of_isBlank (by decide)).trans trimmed
      rw [(trimmed_dashLine trimmed).trimRight_eq, dashLine, addItemLine, inner]

-----------------------------------------------------------------------------------------
-- The lines of choices
-----------------------------------------------------------------------------------------

/-- A line without a dash goes on with the last choice. -/
theorem addItemLine_continuation {line : List Char} (h : line.head? ≠ some '-')
    (last : List Char) (items : List (List Char))
    : addItemLine (last :: items) line = some ((last ++ '\n' :: line) :: items) := by
  cases line with
  | nil => rfl
  | cons c rest =>
      have other : c ≠ '-' := fun same => h (congrArg some same)
      unfold addItemLine
      split
      · next same => exact absurd (List.cons.inj same).1 other
      · next joined _ =>
        cases joined
        rfl
      · next none _ => exact nomatch none

/-- The lines after its first one end up in a choice, by induction on them. -/
theorem foldlM_continuation {rest : List (List Char)} (h : ∀ line ∈ rest, line.head? ≠ some '-')
    (last : List Char) (items : List (List Char))
    : rest.foldlM addItemLine (last :: items)
        = some (joinWith ['\n'] (last :: rest) :: items) := by
  induction rest generalizing last with
  | nil => rfl
  | cons line rest ih =>
      obtain ⟨first, others⟩ := List.forall_mem_cons.mp h
      rw [List.foldlM_cons, addItemLine_continuation first]
      have joined : joinWith ['\n'] ((last ++ '\n' :: line) :: rest)
          = joinWith ['\n'] (last :: line :: rest) := by
        cases rest <;> simp [joinWith]
      rw [← joined]
      exact ih others _

/-- The lines of a choice as they stand in a body. -/
def itemLines (item : List Char × List (List Char)) : List (List Char) :=
  trimRight (dashLine item.1) :: item.2

/-- A choice as one text. -/
def itemText (item : List Char × List (List Char)) : List Char :=
  joinWith ['\n'] (item.1 :: item.2)

/-- The lines of choices give the choices back, by induction on them. -/
theorem foldlM_itemLines {items : List (List Char × List (List Char))}
    (h : ∀ item ∈ items, IsItem item.1 item.2) (before : List (List Char))
    : (items.flatMap itemLines).foldlM addItemLine before
        = some ((items.map itemText).reverse ++ before) := by
  induction items generalizing before with
  | nil => rfl
  | cons item items ih =>
      obtain ⟨first, others⟩ := List.forall_mem_cons.mp h
      have dashless : ∀ line ∈ item.2, line.head? ≠ some '-' :=
        fun line member => (first.continuation line member).2.2.1
      have one : (itemLines item).foldlM addItemLine before = some (itemText item :: before) := by
        rw [itemLines, List.foldlM_cons, addItemLine_dashLine first.trimmed]
        exact foldlM_continuation dashless item.1 before
      rw [List.flatMap_cons, List.foldlM_append, one]
      simpa using ih others (itemText item :: before)

/-- Choices are read back from their lines. -/
theorem items?_layOut {items : List (List Char × List (List Char))}
    (h : ∀ item ∈ items, IsItem item.1 item.2)
    : items? (layOut (items.flatMap itemLines))
        = some (items.map (fun item => .ofList (itemText item))) := by
  have shown : ∀ line ∈ items.flatMap itemLines, Shown line := by
    intro line member
    obtain ⟨item, found, inside⟩ := List.mem_flatMap.mp member
    have whole := h item found
    rcases List.mem_cons.mp inside with rfl | later
    · exact shown_dashLine whole.trimmed whole.plain
    · exact (whole.continuation line later).1
  rw [items?, shownLines_layOut shown, foldlM_itemLines h]
  simp

theorem clean_flatten_layOut {text : List Char} (h : IsText text) (shows : text ≠ [])
    : Markup.clean (flatten (layOut [text])) = text := by
  have shown : ∀ line ∈ [text], Shown line := by
    simpa using Shown.mk h.trimmed shows h.plain
  rw [flatten, shownLines_layOut shown, joinWith, h.cleaned]

end QuizVariants.Section
