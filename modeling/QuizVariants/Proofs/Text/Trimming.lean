import Mathlib.Data.List.TakeWhile
import QuizVariants.Text.Blank

/-! Trimmed texts.
Trimming leaves a text alone exactly if neither its first nor its last character is blank.
-/

namespace QuizVariants.Text

/-- A text without blanks at its ends. -/
def Trimmed (text : List Char) : Prop :=
  trim text = text

theorem trimLeft_eq_self_iff {text : List Char}
    : trimLeft text = text ↔ ∀ c, text.head? = some c → isBlank c = false := by
  cases text with
  | nil => simp [trimLeft_nil]
  | cons c rest =>
      cases blank : isBlank c with
      | false => simp [trimLeft_cons_of_not_isBlank blank, blank]
      | true =>
          have shorter : (trimLeft rest).length ≤ rest.length := List.length_dropWhile_le _ _
          have other : trimLeft rest ≠ c :: rest := fun same => by
            rw [same, List.length_cons] at shorter
            omega
          simp [trimLeft_cons_of_isBlank blank, other, blank]

/-- Trimming on the right is trimming on the left from behind. -/
theorem trimRight_eq_self_iff {text : List Char}
    : trimRight text = text ↔ ∀ c, text.getLast? = some c → isBlank c = false := by
  rw [trimRight, List.reverse_eq_iff, ← List.head?_reverse]
  exact trimLeft_eq_self_iff

theorem length_trimRight_le (text : List Char) : (trimRight text).length ≤ text.length := by
  have shorter := List.length_dropWhile_le isBlank text.reverse
  simpa [trimRight] using shorter

/-- A trimmed text has nothing to trim on the left; witness: trimming never adds a character. -/
theorem Trimmed.trimLeft_eq {text : List Char} (h : Trimmed text) : trimLeft text = text := by
  refine (List.dropWhile_suffix isBlank).eq_of_length_le ?_
  calc text.length = (trim text).length := by rw [show trim text = text from h]
    _ ≤ (trimLeft text).length := length_trimRight_le _

theorem Trimmed.trimRight_eq {text : List Char} (h : Trimmed text) : trimRight text = text := by
  have right : trimRight (trimLeft text) = text := h
  rwa [h.trimLeft_eq] at right

/-- A text is trimmed if both of its ends show. -/
theorem trimmed_iff {text : List Char}
    : Trimmed text
      ↔ (∀ c, text.head? = some c → isBlank c = false)
        ∧ ∀ c, text.getLast? = some c → isBlank c = false := by
  rw [← trimLeft_eq_self_iff, ← trimRight_eq_self_iff]
  constructor
  · exact fun h => ⟨h.trimLeft_eq, h.trimRight_eq⟩
  · rintro ⟨left, right⟩
    rw [Trimmed, trim, left, right]

theorem trimmed_nil : Trimmed [] :=
  rfl

/-- A text between two characters that show is trimmed. -/
theorem trimmed_between {first last : Char} (left : isBlank first = false)
    (right : isBlank last = false) (middle : List Char)
    : Trimmed (first :: middle ++ [last]) := by
  refine trimmed_iff.mpr ⟨?_, ?_⟩
  · rintro c ⟨⟩
    exact left
  · intro c ending
    rw [List.getLast?_append, List.getLast?_singleton] at ending
    obtain rfl := Option.some.inj ending
    exact right

theorem trim_cons_of_isBlank {c : Char} {text : List Char} (h : isBlank c = true)
    : trim (c :: text) = trim text := by
  rw [trim, trimLeft_cons_of_isBlank h, trim]

theorem trimRight_append_of_isBlank {c : Char} {text : List Char} (h : isBlank c = true)
    : trimRight (text ++ [c]) = trimRight text := by
  simp [trimRight, h]

/-- A change that leaves each of some texts alone leaves their list alone. -/
theorem map_eq_self {change : List Char → List Char} {texts : List (List Char)}
    (h : ∀ text ∈ texts, change text = text)
    : texts.map change = texts := by
  have same : texts.map change = texts.map id := List.map_congr_left h
  rw [same, List.map_id]

/-- A trimmed text shows something, unless it is empty. -/
theorem Trimmed.allBlank_eq {text : List Char} (h : Trimmed text) (shows : text ≠ [])
    : allBlank text = false := by
  cases text with
  | nil => exact absurd rfl shows
  | cons c rest =>
      rw [allBlank, List.all_cons, (trimmed_iff.mp h).1 c rfl, Bool.false_and]

-----------------------------------------------------------------------------------------
-- What trimming leaves
-----------------------------------------------------------------------------------------

theorem isBlank_of_head?_trimLeft {c : Char} {text : List Char} (h : (trimLeft text).head? = some c)
    : isBlank c = false := by
  have shows := List.head?_dropWhile_not isBlank text
  rw [trimLeft] at h
  rw [h] at shows
  exact shows

theorem isBlank_of_getLast?_trimRight {c : Char} {text : List Char}
    (h : (trimRight text).getLast? = some c)
    : isBlank c = false := by
  rw [trimRight, List.getLast?_reverse] at h
  exact isBlank_of_head?_trimLeft h

theorem trimRight_trimRight (text : List Char) : trimRight (trimRight text) = trimRight text :=
  trimRight_eq_self_iff.mpr (fun _ => isBlank_of_getLast?_trimRight)

/-- Trimming on the left takes blanks off. -/
theorem exists_leading_blanks (text : List Char)
    : ∃ blanks, text = blanks ++ trimLeft text ∧ ∀ c ∈ blanks, isBlank c = true :=
  ⟨text.takeWhile isBlank, List.takeWhile_append_dropWhile.symm,
    fun _ member => List.mem_takeWhile_imp member⟩

/-- Trimming on the right takes blanks off. -/
theorem exists_blanks (text : List Char)
    : ∃ blanks, text = trimRight text ++ blanks ∧ ∀ c ∈ blanks, isBlank c = true := by
  refine ⟨(text.reverse.takeWhile isBlank).reverse, ?_, ?_⟩
  · rw [trimRight, ← List.reverse_append, List.takeWhile_append_dropWhile, List.reverse_reverse]
  · intro c member
    exact List.mem_takeWhile_imp (List.mem_reverse.mp member)

/-- Trimming takes blanks off on both sides. -/
theorem exists_blanks_around (text : List Char)
    : ∃ before behind, text = before ++ (trim text ++ behind)
      ∧ (∀ c ∈ before, isBlank c = true) ∧ ∀ c ∈ behind, isBlank c = true := by
  obtain ⟨before, left, blank⟩ := exists_leading_blanks text
  obtain ⟨behind, right, blank'⟩ := exists_blanks (trimLeft text)
  refine ⟨before, behind, ?_, blank, blank'⟩
  rw [trim, ← right, ← left]

theorem trimmed_trim (text : List Char) : Trimmed (trim text) := by
  refine trimmed_iff.mpr ⟨fun c first => ?_, fun c last => isBlank_of_getLast?_trimRight last⟩
  obtain ⟨blanks, split, _⟩ := exists_blanks (trimLeft text)
  refine @isBlank_of_head?_trimLeft c text ?_
  rw [split, List.head?_append, ← trim, first, Option.some_or]

/-- What stands in front of a character that shows is not trimmed. -/
theorem trimRight_append_cons (front : List Char) {c : Char} (shows : isBlank c = false)
    (back : List Char)
    : trimRight (front ++ c :: back) = front ++ c :: trimRight back := by
  simp only [trimRight, List.reverse_append, List.reverse_cons, List.append_assoc,
    List.dropWhile_append]
  by_cases none : (back.reverse.dropWhile isBlank).isEmpty
  · have empty := List.isEmpty_iff.mp none
    simp [empty, shows]
  · simp [none]

/-- A blank behind a trimmed text does not count. -/
theorem Trimmed.trim_append_of_isBlank {c : Char} {text : List Char} (h : Trimmed text)
    (blank : isBlank c = true)
    : trim (text ++ [c]) = text := by
  cases text with
  | nil => rw [List.nil_append, trim_cons_of_isBlank blank]; rfl
  | cons d rest =>
      have starts : trimLeft (d :: rest ++ [c]) = d :: rest ++ [c] :=
        trimLeft_cons_of_not_isBlank ((trimmed_iff.mp h).1 d rfl)
      rw [trim, starts, trimRight_append_of_isBlank blank, h.trimRight_eq]

/-- It does not matter on which side a text is trimmed first. -/
theorem trim_trimRight (text : List Char) : trim (trimRight text) = trim text := by
  obtain ⟨blanks, split, blank⟩ := exists_leading_blanks text
  cases shown : trimLeft text with
  | nil =>
      rw [shown, List.append_nil] at split
      have none : trimRight text = [] := by
        rw [trimRight, List.reverse_eq_nil_iff, List.dropWhile_eq_nil_iff, split]
        exact fun c member => blank c (List.mem_reverse.mp member)
      rw [none, show trim text = trimRight (trimLeft text) from rfl, shown]
      rfl
  | cons c rest =>
      have shows : isBlank c = false := isBlank_of_head?_trimLeft (congrArg List.head? shown)
      rw [shown] at split
      have right : trimRight (c :: rest) = c :: trimRight rest :=
        trimRight_append_cons [] shows rest
      have skips : (blanks ++ c :: trimRight rest).dropWhile isBlank = c :: trimRight rest := by
        rw [List.dropWhile_append_of_pos blank, List.dropWhile_cons_of_neg (by simp [shows])]
      rw [trim, trim, shown, right, split, trimRight_append_cons blanks shows rest, trimLeft, skips,
        ← right, trimRight_trimRight]

/-- A blank in front of a trimmed text does not count, whatever is trimmed first. -/
theorem Trimmed.trim_trimRight_cons {c : Char} {text : List Char} (h : Trimmed text)
    (blank : isBlank c = true)
    : trim (trimRight (c :: text)) = text := by
  cases text with
  | nil =>
      have none : trimRight ([] ++ [c]) = trimRight [] := trimRight_append_of_isBlank blank
      rw [show trimRight [c] = [] from none]
      rfl
  | cons d rest =>
      have ends : trimRight (c :: d :: rest) = c :: d :: rest := by
        rw [trimRight_eq_self_iff, List.getLast?_cons_cons]
        exact (trimmed_iff.mp h).2
      rw [ends, trim_cons_of_isBlank blank]
      exact h

end QuizVariants.Text
