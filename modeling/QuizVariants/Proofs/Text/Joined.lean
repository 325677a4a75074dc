import QuizVariants.Proofs.Text.Layout

/-! Texts between separators.
A text is the join of its parts in one way, and each separator in it stands between two parts.
-/

namespace QuizVariants.Text

theorem joinWith_cons_cons (separator part next : List Char) (rest : List (List Char))
    : joinWith separator (part :: next :: rest)
        = part ++ (separator ++ joinWith separator (next :: rest)) := by
  rw [joinWith.eq_3 _ _ _ (by simp), List.append_assoc]

/-- The parts after the first one each follow a separator, by induction on them. -/
theorem joinWith_cons (separator part : List Char) (rest : List (List Char))
    : joinWith separator (part :: rest)
        = part ++ rest.flatMap (fun other => separator ++ other) := by
  induction rest generalizing part with
  | nil => simp [joinWith]
  | cons next rest ih => rw [joinWith_cons_cons, ih, List.flatMap_cons, List.append_assoc]

theorem append_joinWith_cons (front separator part : List Char) (rest : List (List Char))
    : front ++ joinWith separator (part :: rest)
        = joinWith separator ((front ++ part) :: rest) := by
  rw [joinWith_cons, joinWith_cons, List.append_assoc]

/-- A separator stands between the first parts and the others. -/
theorem joinWith_append {first second : List (List Char)} (some : first ≠ []) (others : second ≠ [])
    (separator : List Char)
    : joinWith separator (first ++ second)
        = joinWith separator first ++ (separator ++ joinWith separator second) := by
  obtain ⟨part, front, rfl⟩ := List.exists_cons_of_ne_nil some
  obtain ⟨next, back, rfl⟩ := List.exists_cons_of_ne_nil others
  simp [joinWith_cons]

/-- What ends the last part ends the text. -/
theorem joinWith_append_last (separator : List Char) (parts : List (List Char))
    (last ending : List Char)
    : joinWith separator (parts ++ [last ++ ending])
        = joinWith separator (parts ++ [last]) ++ ending := by
  cases parts with
  | nil => rfl
  | cons part parts => simp [joinWith_cons]

/-- Every part stands in the text. -/
theorem infix_joinWith {part : List Char} {parts : List (List Char)} (h : part ∈ parts)
    (separator : List Char)
    : part <:+: joinWith separator parts := by
  obtain ⟨front, back, rfl⟩ := List.append_of_mem h
  have start : part <:+: joinWith separator (part :: back) := by
    rw [joinWith_cons]
    exact (List.prefix_append _ _).isInfix
  cases front with
  | nil => exact start
  | cons first front =>
      rw [joinWith_append (List.cons_ne_nil _ _) (List.cons_ne_nil _ _)]
      exact start.trans ((List.suffix_append _ _).trans (List.suffix_append _ _)).isInfix

-----------------------------------------------------------------------------------------
-- Parts without the separator
-----------------------------------------------------------------------------------------

/-- A text has at least one part, by induction on it. -/
theorem splitAt_ne_nil (separator : Char) (text : List Char) : splitAt separator text ≠ [] := by
  cases text with
  | nil => exact List.cons_ne_nil _ _
  | cons c text =>
      rw [splitAt]
      split
      · exact List.cons_ne_nil _ _
      · split <;> exact List.cons_ne_nil _ _

/-- A text is the join of its parts, by induction on it. -/
theorem joinWith_splitAt (separator : Char) (text : List Char)
    : joinWith [separator] (splitAt separator text) = text := by
  induction text with
  | nil => rfl
  | cons c text ih =>
      obtain ⟨part, parts, split⟩ := List.exists_cons_of_ne_nil (splitAt_ne_nil separator text)
      rw [splitAt]
      split
      · next same =>
        rw [split, joinWith_cons_cons, ← split, ih, same]
        rfl
      · rw [split] at ih ⊢
        rw [joinWith_cons] at ih ⊢
        rw [List.cons_append, ih]

/-- No part has the separator in it, by induction on the text. -/
theorem not_mem_of_mem_splitAt {separator : Char} {text part : List Char}
    (h : part ∈ splitAt separator text)
    : separator ∉ part := by
  induction text generalizing part with
  | nil =>
      obtain rfl := List.mem_singleton.mp h
      exact List.not_mem_nil
  | cons c text ih =>
      obtain ⟨first, parts, split⟩ := List.exists_cons_of_ne_nil (splitAt_ne_nil separator text)
      rw [split] at ih
      rw [splitAt, split] at h
      by_cases same : c = separator
      · rw [if_pos same] at h
        rcases List.mem_cons.mp h with rfl | other
        · exact List.not_mem_nil
        · exact ih other
      · rw [if_neg same] at h
        rcases List.mem_cons.mp h with rfl | other
        · refine List.not_mem_cons_of_ne_of_not_mem (Ne.symm same) (ih List.mem_cons_self)
        · exact ih (List.mem_cons_of_mem _ other)

/-- Parts without the separator are found again, by induction on them. -/
theorem splitAt_joinWith {separator : Char} {parts : List (List Char)} (some : parts ≠ [])
    (plain : ∀ part ∈ parts, separator ∉ part)
    : splitAt separator (joinWith [separator] parts) = parts := by
  have goes (part rest : List Char) (fresh : separator ∉ part) {first : List Char}
      {more : List (List Char)} (split : splitAt separator rest = first :: more)
      : splitAt separator (part ++ rest) = (part ++ first) :: more := by
    induction part with
    | nil => exact split
    | cons c part ih =>
        rw [List.mem_cons, not_or] at fresh
        rw [List.cons_append, splitAt, if_neg (Ne.symm fresh.1), ih fresh.2]
        rfl
  induction parts with
  | nil => exact absurd rfl some
  | cons part rest ih =>
      obtain ⟨fresh, others⟩ := List.forall_mem_cons.mp plain
      cases rest with
      | nil => simpa [joinWith] using goes part [] fresh rfl
      | cons next rest =>
          have behind : splitAt separator ([separator] ++ joinWith [separator] (next :: rest))
              = [] :: next :: rest := by
            rw [List.singleton_append, splitAt, if_pos rfl, ih (List.cons_ne_nil _ _) others]
          rw [joinWith_cons_cons, goes part _ fresh behind, List.append_nil]

/-- Without its separators a text is its parts in a row, by induction on them. -/
theorem filter_joinWith {separator : Char} {parts : List (List Char)}
    (plain : ∀ part ∈ parts, separator ∉ part)
    : (joinWith [separator] parts).filter (· ≠ separator) = parts.flatten := by
  induction parts with
  | nil => rfl
  | cons part rest ih =>
      obtain ⟨fresh, others⟩ := List.forall_mem_cons.mp plain
      have kept : part.filter (· ≠ separator) = part :=
        List.filter_eq_self.mpr fun c member => decide_eq_true (ne_of_mem_of_not_mem member fresh)
      cases rest with
      | nil => rw [joinWith, kept, List.flatten_singleton]
      | cons next rest =>
          have gone : [separator].filter (· ≠ separator) = [] := by simp
          rw [joinWith_cons_cons, List.filter_append, List.filter_append, kept, gone, ih others]
          rfl

/-- Texts are the same only if their parts are. -/
theorem joinWith_inj {separator : Char} {first second : List (List Char)} (some : first ≠ [])
    (others : second ≠ []) (plain : ∀ part ∈ first, separator ∉ part)
    (plain' : ∀ part ∈ second, separator ∉ part)
    (same : joinWith [separator] first = joinWith [separator] second)
    : first = second := by
  rw [← splitAt_joinWith some plain, same, splitAt_joinWith others plain']

/-- A separator in a text stands between two of its parts. -/
theorem exists_parts_of_joinWith {separator : Char} {parts : List (List Char)}
    {front back : List Char} (some : parts ≠ []) (plain : ∀ part ∈ parts, separator ∉ part)
    (split : joinWith [separator] parts = front ++ separator :: back)
    : ∃ first second, parts = first ++ second ∧ first ≠ [] ∧ second ≠ []
      ∧ front = joinWith [separator] first ∧ back = joinWith [separator] second := by
  refine ⟨splitAt separator front, splitAt separator back, ?_, splitAt_ne_nil _ _,
    splitAt_ne_nil _ _, (joinWith_splitAt _ _).symm, (joinWith_splitAt _ _).symm⟩
  refine joinWith_inj some (List.append_ne_nil_of_left_ne_nil (splitAt_ne_nil _ _) _) plain
    (List.forall_mem_append.mpr ⟨fun _ => not_mem_of_mem_splitAt, fun _ => not_mem_of_mem_splitAt⟩)
    ?_
  rw [split, joinWith_append (splitAt_ne_nil _ _) (splitAt_ne_nil _ _), joinWith_splitAt,
    joinWith_splitAt]
  rfl

end QuizVariants.Text
