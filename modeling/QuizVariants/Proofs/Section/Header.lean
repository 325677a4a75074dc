import QuizVariants.Proofs.Text.Bare
import QuizVariants.Proofs.Text.Layout
import QuizVariants.Section.Primary

/-! Lines of headers.
A header is a label of letters between double angle brackets. Blanks may stand around the label and
around the brackets, and a comment may follow; a carriage return at the end of a line is one of the
blanks, so that it makes no line a header and keeps none from being one.
-/

namespace QuizVariants.Section

open QuizVariants.Text

/-- Characters none of which shows. -/
def Blanks (text : List Char) : Prop :=
  ∀ c ∈ text, isBlank c = true

/-- Nothing, or a comment. -/
def IsComment (text : List Char) : Prop :=
  ∀ c ∈ text.head?, c = '#'

instance (text : List Char) : Decidable (Blanks text) :=
  List.decidableBAll _ text

instance (text : List Char) : Decidable (IsComment text) :=
  text.head?.decidableForallMem

/-- A line that is a header with this label. -/
inductive Heads (label : List Char) : List Char → Prop where
  | intro {indent before behind margin comment : List Char} (indented : Blanks indent)
      (opened : Blanks before) (closed : Blanks behind) (spaced : Blanks margin)
      (commented : IsComment comment) (letters : ∀ c ∈ label, isLetter c = true)
      (named : label ≠ [])
      : Heads label
          (indent ++ (['<', '<'] ++ (before ++ (label ++ (behind ++ (['>', '>']
            ++ (margin ++ comment)))))))

/-- The name that a label stands for, in lower case. -/
def nameOf (label : List Char) : String :=
  .ofList (label.map Char.toLower)

-----------------------------------------------------------------------------------------
-- Headers are exactly the lines with a name
-----------------------------------------------------------------------------------------

/-- A letter shows. -/
theorem isBlank_eq_false_of_isLetter {c : Char} (h : isLetter c = true) : isBlank c = false := by
  have range : 65 ≤ c.toNat ∧ c.toNat ≤ 122 := by
    simp only [isLetter, Bool.or_eq_true, Bool.and_eq_true, decide_eq_true_eq, Char.le_def,
      UInt32.le_iff_toNat_le] at h
    change (97 ≤ c.toNat ∧ c.toNat ≤ 122) ∨ (65 ≤ c.toNat ∧ c.toNat ≤ 90) at h
    omega
  simp only [isBlank, Bool.or_eq_false_iff, Bool.and_eq_false_iff, decide_eq_false_iff_not,
    beq_eq_false_iff_ne]
  omega

theorem trimLeft_append {blanks text : List Char} (h : Blanks blanks) (stops : Stops isBlank text)
    : trimLeft (blanks ++ text) = text :=
  dropWhile_append_of_stops h stops

theorem trimRight_append {blanks : List Char} (h : Blanks blanks) (text : List Char)
    : trimRight (text ++ blanks) = trimRight text := by
  rw [trimRight, List.reverse_append,
    List.dropWhile_append_of_pos (fun c member => h c (List.mem_reverse.mp member)), trimRight]

/-- Blanks around a trimmed text do not count. -/
theorem trim_between_blanks {before text behind : List Char} (h : Trimmed text)
    (left : Blanks before) (right : Blanks behind)
    : trim (before ++ (text ++ behind)) = text := by
  calc trim (before ++ (text ++ behind))
      = trim (text ++ behind) := by
        rw [trim, trim, trimLeft, List.dropWhile_append_of_pos left, trimLeft]
    _ = trim (trimRight (text ++ behind)) := (trim_trimRight _).symm
    _ = text := by rw [trimRight_append right, trim_trimRight, show trim text = text from h]

/-- A header line has the name of its label. -/
theorem Heads.header?_eq {label line : List Char} (h : Heads label line)
    : header? line = some (nameOf label) := by
  obtain @⟨indent, before, behind, margin, comment, indented, opened, closed, spaced, commented,
    letters, named⟩ := h
  have start : Stops isBlank (label ++ (behind ++ (['>', '>'] ++ (margin ++ comment)))) := by
    cases label with
    | nil => exact absurd rfl named
    | cons c label =>
        exact stops_cons.mpr (isBlank_eq_false_of_isLetter (letters c List.mem_cons_self))
  have finish : Stops isLetter (behind ++ (['>', '>'] ++ (margin ++ comment))) := by
    cases behind with
    | nil => exact stops_cons.mpr rfl
    | cons c behind =>
        refine stops_cons.mpr (Bool.eq_false_iff.mpr (fun letter => ?_))
        have shows := isBlank_eq_false_of_isLetter letter
        rw [closed c List.mem_cons_self] at shows
        exact nomatch shows
  have comments : Stops isBlank comment := by
    intro c first
    rw [commented c first]
    rfl
  have isNamed : label.isEmpty = false := by simpa using named
  -- Each step of the reader finds its part behind the blanks in front of it.
  refine Option.bind_eq_some_iff.mpr
    ⟨_, after?_eq_some_iff.mpr (trimLeft_append indented (stops_cons.mpr rfl)), ?_⟩
  rw [trimLeft_append opened start]
  simp only [takeWhile_append_of_stops letters finish, dropWhile_append_of_stops letters finish]
  refine Option.bind_eq_some_iff.mpr
    ⟨_, after?_eq_some_iff.mpr (trimLeft_append closed (stops_cons.mpr rfl)), ?_⟩
  rw [trimLeft_append spaced comments]
  cases comment with
  | nil => simp [isNamed, nameOf]
  | cons c comment =>
      obtain rfl : c = '#' := commented c rfl
      simp [isNamed, nameOf]

/-- A line with a name is a header whose label stands for the name. -/
theorem heads_of_header? {line : List Char} {name : String} (h : header? line = some name)
    : ∃ label, Heads label line ∧ name = nameOf label := by
  obtain ⟨inside, opened, h⟩ := Option.bind_eq_some_iff.mp h
  obtain ⟨outside, closed, h⟩ := Option.bind_eq_some_iff.mp h
  obtain ⟨indent, first, indented⟩ := exists_leading_blanks line
  obtain ⟨before, second, spaced⟩ := exists_leading_blanks inside
  obtain ⟨behind, third, closes⟩ := exists_leading_blanks ((trimLeft inside).dropWhile isLetter)
  obtain ⟨margin, fourth, follows⟩ := exists_leading_blanks outside
  rw [after?_eq_some_iff] at opened closed
  have commented : IsComment (trimLeft outside) ∧ (trimLeft inside).takeWhile isLetter ≠ []
      ∧ name = nameOf ((trimLeft inside).takeWhile isLetter) := by
    rcases rest : trimLeft outside with _ | ⟨c, comment⟩
    · simp only [rest] at h
      split at h
      · exact nomatch h
      · next named => exact ⟨nofun, by simpa using named, (Option.some.inj h).symm⟩
    · by_cases sign : c = '#'
      · subst sign
        simp only [rest] at h
        split at h
        · exact nomatch h
        · next named =>
          exact ⟨fun _ first => (Option.some.inj first).symm, by simpa using named,
            (Option.some.inj h).symm⟩
      · simp [rest, sign] at h
  refine ⟨(trimLeft inside).takeWhile isLetter, ?_, commented.2.2⟩
  have whole : line = indent ++ (['<', '<'] ++ (before ++ ((trimLeft inside).takeWhile isLetter
      ++ (behind ++ (['>', '>'] ++ (margin ++ trimLeft outside)))))) := by
    rw [← fourth, ← closed, ← third, List.takeWhile_append_dropWhile, ← second, ← opened, ← first]
  rw [whole]
  exact .intro indented spaced closes follows commented.1
    (fun _ member => List.mem_takeWhile_imp member) commented.2.1

theorem header?_eq_none_iff {line : List Char}
    : header? line = none ↔ ∀ label, ¬ Heads label line := by
  constructor
  · intro none label heads
    exact nomatch none.symm.trans heads.header?_eq
  · intro none
    refine Option.eq_none_iff_forall_ne_some.mpr (fun name named => ?_)
    obtain ⟨label, heads, _⟩ := heads_of_header? named
    exact none label heads

-----------------------------------------------------------------------------------------
-- Carriage returns
-----------------------------------------------------------------------------------------

/-- A carriage return behind a header is one of its blanks, or belongs to its comment. -/
theorem Heads.append_return {label line : List Char} (h : Heads label line)
    : Heads label (line ++ ['\r']) := by
  obtain @⟨indent, before, behind, margin, comment, indented, opened, closed, spaced, commented,
    letters, named⟩ := h
  have appended (margin' comment' : List Char) (ending : margin' ++ comment'
        = margin ++ comment ++ ['\r']) (spaced' : Blanks margin') (commented' : IsComment comment')
      : Heads label (indent ++ (['<', '<'] ++ (before ++ (label ++ (behind ++ (['>', '>']
        ++ (margin ++ comment)))))) ++ ['\r']) := by
    have heads := Heads.intro indented opened closed spaced' commented' letters named
    rw [ending] at heads
    simpa only [List.append_assoc] using heads
  cases comment with
  | nil =>
      refine appended (margin ++ ['\r']) [] (by simp) ?_ commented
      exact List.forall_mem_append.mpr ⟨spaced, List.forall_mem_singleton.mpr rfl⟩
  | cons sign comment =>
      exact appended margin (sign :: comment ++ ['\r']) (by simp) spaced commented

/-- A line that is a header is one without its last character, unless this closes the brackets. -/
theorem Heads.of_append {label line : List Char} {c : Char} (h : Heads label (line ++ [c]))
    (other : c ≠ '>')
    : Heads label line := by
  generalize same : line ++ [c] = whole at h
  obtain @⟨indent, before, behind, margin, comment, indented, opened, closed, spaced, commented,
    letters, named⟩ := h
  have dropped (margin' comment' : List Char) (last : Char)
      (ending : margin ++ comment = margin' ++ comment' ++ [last]) (spaced' : Blanks margin')
      (commented' : IsComment comment')
      : Heads label line := by
    have heads := Heads.intro indented opened closed spaced' commented' letters named
    rw [ending] at same
    simp only [← List.append_assoc] at same heads
    rwa [← (List.append_inj' same rfl).1] at heads
  -- The last character ends the comment or, without one, the blanks in front of it.
  rcases List.eq_nil_or_concat comment with rfl | ⟨front, last, rfl⟩
  · rcases List.eq_nil_or_concat margin with rfl | ⟨front, last, rfl⟩
    · have bracket : line ++ [c]
          = indent ++ ('<' :: '<' :: (before ++ (label ++ (behind ++ ['>'])))) ++ ['>'] := by
        simpa using same
      exact absurd (List.singleton_inj.mp (List.append_inj' bracket rfl).2) other
    · refine dropped front [] last (by simp) ?_ commented
      exact fun c member => spaced c (by simp [member])
  · refine dropped margin front last (by simp) spaced ?_
    cases front with
    | nil => exact nofun
    | cons sign front => exact commented

/-- A line that a carriage return follows is a header only if it is one without it. -/
theorem Heads.of_append_return {label line : List Char} (h : Heads label (line ++ ['\r']))
    : Heads label line :=
  h.of_append (by decide)

/-- A carriage return at the end of a line does not decide whether it is a header. -/
theorem heads_append_return_iff {label line : List Char}
    : Heads label (line ++ ['\r']) ↔ Heads label line :=
  ⟨Heads.of_append_return, Heads.append_return⟩

theorem heads_withoutReturn_iff {label line : List Char}
    : Heads label (withoutReturn line) ↔ Heads label line := by
  by_cases ending : line.getLast? = some '\r'
  · obtain ⟨front, rfl⟩ := List.getLast?_eq_some_iff.mp ending
    rw [withoutReturn_append_return, heads_append_return_iff]
  · rw [withoutReturn_eq_self ending]

end QuizVariants.Section
