import QuizVariants.Proofs.Literal.Outside
import QuizVariants.Proofs.Literal.Reading
import QuizVariants.Proofs.Text.Affixes

/-! Strings in triple quotes.
A text behind three marks is a string exactly if three marks end it that stand nowhere else in it,
and such a string is taken as it stands. No string is longer than what stands between its marks.
-/

namespace QuizVariants.Text

/-- A pattern occurs where a text is split at it, by induction on the text. -/
theorem occurs_eq_true_iff {pattern text : List Char}
    : occurs pattern text = true ↔ pattern <:+: text := by
  have split : (breakOn pattern text).isSome = true ↔ pattern <:+: text := by
    induction text with
    | nil =>
        rw [breakOn, List.infix_nil]
        by_cases none : pattern = []
        · simp [none]
        · simp [none]
    | cons c text ih =>
        rw [breakOn, List.infix_cons_iff]
        cases found : after? pattern (c :: text) with
        | some rest =>
            have start : pattern <+: c :: text := ⟨rest, (after?_eq_some_iff.mp found).symm⟩
            simp [start]
        | none =>
            have other : ¬ pattern <+: c :: text := by
              rintro ⟨rest, same⟩
              cases found.symm.trans (after?_eq_some_iff.mpr same.symm)
            simp [other, ih]
  exact split

end QuizVariants.Text

namespace QuizVariants.Literal

open QuizVariants.Text

/-- A number or a keyword is no string. -/
theorem readString?_of_scalar? {text : List Char} {content : String}
    (h : scalar? text = some (.quoted content))
    : readString? text = some (.quoted content) := by
  simp only [scalar?, Option.orElse_eq_orElse, Option.orElse_eq_or, Option.or_eq_some_iff] at h
  rcases h with number | ⟨_, keyword | ⟨_, string⟩⟩
  · unfold readNumber? at number
    split at number
    dsimp only at number
    split at number
    · split at number
      · split at number <;> cases number
      · split at number <;> cases number
    · cases number
  · unfold readKeyword? at keyword
    split at keyword <;> cases keyword
  · exact string

theorem readString?_of_decodeChars {text : List Char} {content : String}
    (h : decodeChars text = .quoted content)
    : readString? (trim text) = some (.quoted content) := by
  refine readString?_of_scalar? ?_
  rw [decodeChars, ofTrimmed, Option.orElse_eq_orElse, Option.orElse_eq_or] at h
  cases scalar : scalar? (trim text) with
  | some literal =>
      rw [scalar] at h
      exact congrArg some h
  | none =>
      rw [scalar, Option.none_or] at h
      cases list : readList? (trim text) with
      | none => rw [list] at h; cases h
      | some literal =>
          obtain ⟨items, rfl, _⟩ := exists_parts_of_readList? list
          rw [list] at h
          cases h

theorem betweenTriples?_eq_some_iff {mark : Char} {text inner : List Char}
    : betweenTriples? mark text = some inner
      ↔ text = triple mark ++ (inner ++ triple mark) := by
  rw [betweenTriples?, Option.bind_eq_bind, Option.bind_eq_some_iff]
  constructor
  · rintro ⟨rest, opens, closes⟩
    rw [after?_eq_some_iff.mp opens, before?_eq_some_iff.mp closes]
  · rintro rfl
    exact ⟨_, after?_eq_some_iff.mpr rfl, before?_append inner (triple mark)⟩

/-- A text behind three marks is a string exactly if such marks end it and stand nowhere else. -/
theorem readString?_triple_iff {text : List Char} {content : String}
    : readString? (triple '"' ++ text) = some (.quoted content)
      ↔ text = content.toList ++ triple '"' ∧ ¬ triple '"' <:+: content.toList := by
  have other : betweenTriples? '\'' (triple '"' ++ text) = none := rfl
  cases between : betweenTriples? '"' (triple '"' ++ text) with
  | none =>
      have open' : text ≠ content.toList ++ triple '"' := by
        rintro rfl
        cases between.symm.trans (betweenTriples?_eq_some_iff.mpr rfl)
      rw [readString?, between, other]
      exact iff_of_false (Option.some_ne_none _).symm (fun same => open' same.1)
  | some inner =>
      have split := List.append_cancel_left (betweenTriples?_eq_some_iff.mp between)
      rw [readString?, between]
      change tripleQuoted? '"' inner = _ ↔ _
      rw [tripleQuoted?, split, List.append_left_inj, ← occurs_eq_true_iff]
      constructor
      · intro read
        split at read
        · cases read
        · next alone =>
          obtain rfl := Literal.quoted.inj (Option.some.inj read)
          rw [String.toList_ofList]
          exact ⟨rfl, alone⟩
      · rintro ⟨rfl, alone⟩
        rw [if_neg alone, String.ofList_toList]

theorem trim_triple (text : List Char) : trim (triple '"' ++ text) = triple '"' ++ trimRight text :=
  trimRight_append_cons ['"', '"'] (by decide) text

theorem decodeChars_triple_iff {text : List Char} {content : String}
    : decodeChars (triple '"' ++ text) = .quoted content
      ↔ trimRight text = content.toList ++ triple '"' ∧ ¬ triple '"' <:+: content.toList := by
  rw [← readString?_triple_iff, ← trim_triple]
  refine ⟨readString?_of_decodeChars, fun read => ?_⟩
  have number : readNumber? (trim (triple '"' ++ text)) = none := by
    rw [trim_triple]
    exact readNumber?_eq_none (by decide) (by decide)
  have keyword : readKeyword? (trim (triple '"' ++ text)) = none := by
    rw [trim_triple]
    exact readKeyword?_eq_none rfl
  rw [decodeChars, ofTrimmed, scalar?, number, keyword, read]
  rfl

-----------------------------------------------------------------------------------------
-- Strings between marks
-----------------------------------------------------------------------------------------

/-- An escaped character has no more characters than its escape. -/
theorem length_unescapeChar (c : Char) : (unescapeChar c).length ≤ 2 := by
  unfold unescapeChar
  repeat' split
  all_goals simp

/-- What is read up to a closing mark is the inside of a string, which is no shorter than what it
stands for, and it is read alike whatever follows; by the recursion of the reader. -/
theorem exists_inside_of_unquote {mark : Char} {text content rest : List Char}
    (h : unquote mark text = some (content, rest))
    : ∃ inner, text = inner ++ mark :: rest ∧ Inside mark inner ∧ content.length ≤ inner.length
        ∧ ∀ more, unquote mark (inner ++ mark :: more) = some (content, more) := by
  induction text using unquote.induct mark generalizing content with
  | case1 | case2 => cases h
  | case3 c text ih =>
      simp only [unquote] at h
      obtain ⟨read, inner, same⟩ := Option.map_eq_some_iff.mp h
      obtain ⟨rfl, rfl⟩ := Prod.mk.inj same
      obtain ⟨front, rfl, inside, shorter, again⟩ := ih inner
      refine ⟨'\\' :: c :: front, rfl, .escaped c inside, ?_, fun more => ?_⟩
      · have escape := length_unescapeChar c
        simp only [List.length_append, List.length_cons]
        omega
      · simp only [List.cons_append, unquote, again, Option.map_some]
  | case4 text slash =>
      have closes (more : List Char) : unquote mark (mark :: more) = some ([], more) := by
        rw [unquote.eq_def]
        split
        · next none => cases none
        · next same => exact absurd (List.cons.inj same).1 slash
        · next same =>
          obtain ⟨rfl, rfl⟩ := List.cons.inj same
          rw [if_pos rfl]
      obtain ⟨rfl, rfl⟩ := Prod.mk.inj (Option.some.inj ((closes text).symm.trans h))
      exact ⟨[], rfl, .nil, Nat.le_refl _, closes⟩
  | case5 text slash open' =>
      rw [unquote.eq_def] at h
      split at h
      · cases h
      · next same => exact absurd (List.cons.inj same).1 slash
      · next same =>
        obtain ⟨rfl, rfl⟩ := List.cons.inj same
        rw [if_neg open', if_pos rfl] at h
        cases h
  | case6 c text slash open' line ih =>
      rw [unquote_cons slash open' line] at h
      obtain ⟨read, inner, same⟩ := Option.map_eq_some_iff.mp h
      obtain ⟨rfl, rfl⟩ := Prod.mk.inj same
      obtain ⟨front, rfl, inside, shorter, again⟩ := ih inner
      refine ⟨c :: front, rfl, .plain slash open' inside, Nat.succ_le_succ shorter, fun more => ?_⟩
      rw [List.cons_append, unquote_cons slash open' line, again, Option.map_some]

/-- A text in quotes and what follows it are shorter than what they were read from. -/
theorem length_of_unquote {mark : Char} {text content rest : List Char}
    (h : unquote mark text = some (content, rest))
    : content.length + rest.length + 1 ≤ text.length := by
  obtain ⟨inner, rfl, -, shorter, -⟩ := exists_inside_of_unquote h
  simp only [List.length_append, List.length_cons]
  omega

-----------------------------------------------------------------------------------------
-- Lengths of strings
-----------------------------------------------------------------------------------------

/-- A string is shorter than the text that it was read from, at least by two marks. -/
theorem length_of_readString? {text : List Char} {content : String}
    (h : readString? text = some (.quoted content))
    : content.toList.length + 2 ≤ text.length := by
  have between {mark : Char} {inner : List Char} (split : betweenTriples? mark text = some inner)
      (read : tripleQuoted? mark inner = some (.quoted content))
      : content.toList.length + 2 ≤ text.length := by
    rw [betweenTriples?_eq_some_iff.mp split]
    unfold tripleQuoted? at read
    split at read
    · exact nomatch read
    · obtain rfl := Literal.quoted.inj (Option.some.inj read)
      simp only [String.toList_ofList, List.length_append, triple, List.length_cons]
      omega
  unfold readString? at h
  split at h
  · next split => exact between split h
  · next split => exact between split h
  · unfold singleQuoted? at h
    split at h
    · exact nomatch h
    · split at h
      · split at h
        · next read =>
          obtain rfl := Literal.quoted.inj (Option.some.inj h)
          have shorter := length_of_unquote read
          simpa using shorter
        · exact nomatch h
      · exact nomatch h

theorem length_of_decodeChars {text : List Char} {content : String}
    (h : decodeChars text = .quoted content)
    : content.toList.length + 2 ≤ text.length := by
  refine (length_of_readString? (readString?_of_decodeChars h)).trans ?_
  exact (length_trimRight_le _).trans (List.length_dropWhile_le _ _)

end QuizVariants.Literal
