import QuizVariants.Text.Search

/-! Starts and ends of texts.
A single character is taken off an end of a text exactly if the text has it there.
-/

namespace QuizVariants.Text

/-- A text ends with a pattern exactly when it is what precedes it and the pattern. -/
theorem before?_eq_some_iff {pattern text front : List Char}
    : before? pattern text = some front ↔ text = front ++ pattern := by
  simp only [before?, Option.map_eq_some_iff, after?_eq_some_iff]
  constructor
  · rintro ⟨rest, split, rfl⟩
    rw [← List.reverse_reverse text, split]
    simp
  · rintro rfl
    exact ⟨front.reverse, by simp, List.reverse_reverse front⟩

theorem before?_append (front pattern : List Char)
    : before? pattern (front ++ pattern) = some front :=
  before?_eq_some_iff.mpr rfl

/-- A text does not end with a character other than its last one. -/
theorem before?_eq_none {c : Char} {text : List Char} (h : text.getLast? ≠ some c)
    : before? [c] text = none := by
  cases found : before? [c] text with
  | none => rfl
  | some front =>
      rw [before?_eq_some_iff.mp found, List.getLast?_append, List.getLast?_singleton] at h
      exact absurd rfl h

theorem after?_singleton (c : Char) (text : List Char) : after? [c] (c :: text) = some text :=
  after?_eq_some_iff.mpr rfl

/-- A text does not start with a pattern that has another first character. -/
theorem after?_eq_none {c : Char} {text : List Char} (h : text.head? ≠ some c)
    (pattern : List Char)
    : after? (c :: pattern) text = none := by
  cases found : after? (c :: pattern) text with
  | none => rfl
  | some rest =>
      rw [after?_eq_some_iff.mp found] at h
      exact absurd rfl h

/-- A text breaks at the first place of a pattern whose first character does not stand before. -/
theorem breakOn_append {c : Char} {front : List Char} (fresh : c ∉ front) (pattern rest : List Char)
    : breakOn (c :: pattern) (front ++ ((c :: pattern) ++ rest)) = some (front, rest) := by
  induction front with
  | nil =>
      have found : after? (c :: pattern) (c :: (pattern ++ rest)) = some rest :=
        after?_eq_some_iff.mpr rfl
      rw [List.nil_append, List.cons_append, breakOn, found]
  | cons d front ih =>
      rw [List.mem_cons, not_or] at fresh
      have other : after? (c :: pattern) (d :: (front ++ ((c :: pattern) ++ rest))) = none := by
        refine after?_eq_none (fun start => ?_) pattern
        exact fresh.1 (Option.some.inj start).symm
      rw [List.cons_append, breakOn, other, ih fresh.2]
      rfl

end QuizVariants.Text
