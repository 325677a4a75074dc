import Mathlib.Data.List.TakeWhile
import QuizVariants.Proofs.Text.Affixes
import QuizVariants.Text.Lines

/-! Texts split at a mark.
A text is split in one way at the first place of a mark, and what ends a text without the mark ends
what stands behind the mark.
-/

namespace QuizVariants.Text

/-- Two splits of a text at marks, neither of which stands before the other, are the same. -/
theorem append_cons_inj {front front' back back' : List Char} {mark mark' : Char}
    (same : front ++ mark :: back = front' ++ mark' :: back') (first : mark' ∉ front)
    (first' : mark ∉ front')
    : front = front' ∧ mark = mark' ∧ back = back' := by
  induction front generalizing front' with
  | nil =>
      cases front' with
      | nil =>
          obtain ⟨rfl, rfl⟩ := List.cons.inj same
          exact ⟨rfl, rfl, rfl⟩
      | cons c front' =>
          obtain ⟨rfl, _⟩ := List.cons.inj same
          exact absurd List.mem_cons_self first'
  | cons c front ih =>
      cases front' with
      | nil =>
          obtain ⟨rfl, _⟩ := List.cons.inj same
          exact absurd List.mem_cons_self first
      | cons c' front' =>
          obtain ⟨rfl, rest⟩ := List.cons.inj same
          obtain ⟨rfl, rfl, rfl⟩ := ih rest (List.not_mem_of_not_mem_cons first)
            (List.not_mem_of_not_mem_cons first')
          exact ⟨rfl, rfl, rfl⟩

/-- Of two marks in a text, the second one not in front of the first, the first comes first. -/
theorem exists_between {front behind inside after : List Char} {first second : Char}
    (same : inside ++ second :: after = front ++ first :: behind) (fresh : second ∉ front)
    (apart : first ≠ second)
    : ∃ more, inside = front ++ first :: more := by
  rcases List.append_eq_append_iff.mp same with ⟨tail, rfl, rest⟩ | ⟨tail, rfl, rest⟩
  · cases tail with
    | nil => exact absurd (List.cons.inj rest).1.symm apart
    | cons c tail =>
        obtain ⟨rfl, _⟩ := List.cons.inj rest
        exact absurd (List.mem_append_right _ List.mem_cons_self) fresh
  · cases tail with
    | nil => exact absurd (List.cons.inj rest).1 apart
    | cons c tail =>
        obtain ⟨rfl, _⟩ := List.cons.inj rest
        exact ⟨tail, rfl⟩

/-- A suffix without some character stands behind that character. -/
theorem suffix_of_not_mem {c : Char} {ending front behind : List Char}
    (h : ending <:+ front ++ c :: behind) (fresh : c ∉ ending)
    : ending <:+ behind := by
  rcases List.suffix_or_suffix_of_suffix h (List.suffix_append front (c :: behind)) with within
    | beyond
  · refine (List.suffix_cons_iff.mp within).resolve_left (fun same => fresh ?_)
    exact same ▸ List.mem_cons_self
  · exact absurd (beyond.subset List.mem_cons_self) fresh

theorem not_mem_before (stop : Char) (text : List Char) : stop ∉ before stop text := by
  intro member
  have other := List.mem_takeWhile_imp member
  simp at other

/-- The first mark of a text in front of a mark stands behind the characters before it, by induction
on the text. -/
theorem exists_before (stop : Char) (text rest : List Char)
    : ∃ behind, text ++ stop :: rest = before stop text ++ stop :: behind := by
  induction text with
  | nil => exact ⟨rest, rfl⟩
  | cons c text ih =>
      by_cases stops : c = stop
      · subst stops
        have none : before c (c :: text) = [] := List.takeWhile_cons_of_neg (by simp)
        rw [none]
        exact ⟨text ++ c :: rest, rfl⟩
      · obtain ⟨behind, split⟩ := ih
        have goes : before stop (c :: text) = c :: before stop text :=
          List.takeWhile_cons_of_pos (bne_iff_ne.mpr stops)
        rw [goes, List.cons_append, split]
        exact ⟨behind, rfl⟩

/-- The first place on a line where a pattern occurs splits the line there. -/
theorem append_of_breakInLine {pattern text before after : List Char}
    (h : breakInLine [pattern] text = some (before, after))
    : text = before ++ (pattern ++ after) := by
  induction text generalizing before with
  | nil => exact nomatch h
  | cons c text ih =>
      rw [breakInLine] at h
      split at h
      · next rest matching =>
        obtain ⟨rfl, rfl⟩ := Prod.mk.inj (Option.some.inj h)
        rw [List.findSome?_singleton, after?_eq_some_iff] at matching
        exact matching
      · split at h
        · exact nomatch h
        · obtain ⟨⟨front, rest⟩, found, same⟩ := Option.map_eq_some_iff.mp h
          obtain ⟨rfl, rfl⟩ := Prod.mk.inj same
          rw [ih found, List.cons_append]

/-- A line is split at the first place of a character exactly if it has the character on the first
line; by induction on the text. -/
theorem breakInLine_eq_some_iff {c : Char} {text before after : List Char}
    : breakInLine [[c]] text = some (before, after)
      ↔ text = before ++ c :: after ∧ c ∉ before ∧ '\n' ∉ before := by
  induction text generalizing before with
  | nil => simp [breakInLine]
  | cons d text ih =>
      rw [breakInLine, List.findSome?_singleton]
      by_cases closes : c = d
      · subst closes
        rw [after?_singleton]
        constructor
        · intro same
          obtain ⟨rfl, rfl⟩ := Prod.mk.inj (Option.some.inj same)
          exact ⟨rfl, List.not_mem_nil, List.not_mem_nil⟩
        · rintro ⟨same, fresh, _⟩
          obtain ⟨rfl, _, rfl⟩ :=
            @append_cons_inj [] before text after c c same List.not_mem_nil fresh
          rfl
      · have other : after? [c] (d :: text) = none := by
          refine after?_eq_none (fun first => ?_) []
          exact closes (Option.some.inj first).symm
        rw [other]
        change (if d = '\n' then none
          else (breakInLine [[c]] text).map (fun split => (d :: split.1, split.2))) = _ ↔ _
        by_cases newline : d = '\n'
        · rw [if_pos newline]
          refine iff_of_false nofun (fun ⟨same, _, plain⟩ => ?_)
          cases before with
          | nil => exact closes (List.cons.inj same).1.symm
          | cons e before =>
              obtain ⟨rfl, _⟩ := List.cons.inj same
              exact plain (newline ▸ List.mem_cons_self)
        · rw [if_neg newline, Option.map_eq_some_iff]
          constructor
          · rintro ⟨⟨front, rest⟩, found, same⟩
            obtain ⟨rfl, rfl⟩ := Prod.mk.inj same
            obtain ⟨rfl, fresh, plain⟩ := ih.mp found
            exact ⟨rfl, by simp [closes, fresh], by simp [Ne.symm newline, plain]⟩
          · rintro ⟨same, fresh, plain⟩
            cases before with
            | nil => exact absurd (List.cons.inj same).1.symm closes
            | cons e before =>
                obtain ⟨rfl, split⟩ := List.cons.inj same
                exact ⟨(before, after), ih.mpr ⟨split, List.not_mem_of_not_mem_cons fresh,
                  List.not_mem_of_not_mem_cons plain⟩, rfl⟩

end QuizVariants.Text
