import QuizVariants.Proofs.Literal.RoundTrip

/-! Literals that were read.
Whatever text a literal was read from, it is read again from its own source form, as long as its
floats are. Text kept verbatim is its own source form, and in a list it is closed in itself.
-/

namespace QuizVariants.Literal

open QuizVariants.Text

/-- A literal that was read from a text. -/
def IsRead (literal : Literal) : Prop :=
  ∃ text, literal = decodeChars text

/-- A literal that is no float, or a float that is read back from its digits. -/
def Recovers : Literal → Prop
  | .float value =>
    Spelled (source (.float value)).toList
      ∧ scalar? (source (.float value)).toList = some (.float value)
  | _ => True

/-- A literal all floats of which are read back from their digits. -/
def FloatsRecover : Literal → Prop
  | .list items => ∀ item ∈ items, item.Recovers
  | literal => literal.Recovers

theorem IsScalar.recovers {literal : Literal} (h : literal.IsScalar) : literal.Recovers := by
  cases literal with
  | integer _ | bool _ | nan | quoted _ => trivial
  | float _ | list _ | verbatim _ => exact h.elim

-----------------------------------------------------------------------------------------
-- Scalars that were read
-----------------------------------------------------------------------------------------

/-- A number is an integer or a float. -/
theorem cases_of_readNumber? {text : List Char} {literal : Literal}
    (h : readNumber? text = some literal)
    : literal.IsScalar ∨ ∃ value, literal = .float value := by
  unfold readNumber? at h
  split at h
  dsimp only at h
  split at h
  · split at h
    · split at h
      · obtain rfl := Option.some.inj h
        exact Or.inl trivial
      · exact Or.inr ⟨_, (Option.some.inj h).symm⟩
    · split at h
      · exact Or.inr ⟨_, (Option.some.inj h).symm⟩
      · exact nomatch h
  · exact nomatch h

theorem isScalar_of_readKeyword? {text : List Char} {literal : Literal}
    (h : readKeyword? text = some literal)
    : literal.IsScalar := by
  unfold readKeyword? at h
  split at h
  case h_7 => exact nomatch h
  all_goals
    obtain rfl := Option.some.inj h
    trivial

theorem isScalar_of_tripleQuoted? {mark : Char} {inner : List Char} {literal : Literal}
    (h : tripleQuoted? mark inner = some literal)
    : literal.IsScalar := by
  unfold tripleQuoted? at h
  split at h
  · exact nomatch h
  · obtain rfl := Option.some.inj h
    trivial

theorem isScalar_of_singleQuoted? {text : List Char} {literal : Literal}
    (h : singleQuoted? text = some literal)
    : literal.IsScalar := by
  unfold singleQuoted? at h
  split at h
  · cases h
  · split at h
    · split at h
      · obtain rfl := Option.some.inj h
        trivial
      · cases h
    · cases h

theorem isScalar_of_readString? {text : List Char} {literal : Literal}
    (h : readString? text = some literal)
    : literal.IsScalar := by
  unfold readString? at h
  split at h
  · exact isScalar_of_tripleQuoted? h
  · exact isScalar_of_tripleQuoted? h
  · exact isScalar_of_singleQuoted? h

/-- A scalar that was read is a float or none of the literals that are no scalars. -/
theorem cases_of_scalar? {text : List Char} {literal : Literal} (h : scalar? text = some literal)
    : literal.IsScalar ∨ ∃ value, literal = .float value := by
  simp only [scalar?, Option.orElse_eq_orElse, Option.orElse_eq_or, Option.or_eq_some_iff] at h
  rcases h with number | ⟨_, keyword | ⟨_, string⟩⟩
  · exact cases_of_readNumber? number
  · exact Or.inl (isScalar_of_readKeyword? keyword)
  · exact Or.inl (isScalar_of_readString? string)

/-- A scalar that was read is read back, by cases on whether it is a float. -/
theorem spelled_of_scalar? {text : List Char} {literal : Literal} (h : scalar? text = some literal)
    (recovers : literal.Recovers)
    : Spelled literal.source.toList ∧ scalar? literal.source.toList = some literal := by
  rcases cases_of_scalar? h with scalar | ⟨value, rfl⟩
  · exact ⟨spelled_source scalar, scalar?_source scalar⟩
  · exact recovers

-----------------------------------------------------------------------------------------
-- Lists that were read
-----------------------------------------------------------------------------------------

/-- Text kept verbatim from a closed part is a part of its own. -/
theorem isPart_of_scalar?_eq_none {part : List Char} (closed : Closed part) (shows : trim part ≠ [])
    (unread : scalar? (trim part) = none)
    : (item (trim part)).IsPart := by
  have same : item (trim part) = .verbatim (.ofList (trim part)) := by
    rw [item, unread]
    rfl
  have written : (item (trim part)).source.toList = trim part := by
    rw [same, source, String.toList_ofList]
  refine ⟨⟨?_, ?_, ?_⟩, ?_⟩ <;> rw [written]
  · exact trimmed_trim part
  · exact shows
  · exact closed.trim

/-- An item that was read from a closed part is a part of its own. -/
theorem isPart_item {part : List Char} (closed : Closed part) (shows : trim part ≠ [])
    (recovers : (item (trim part)).Recovers)
    : (item (trim part)).IsPart := by
  cases read : scalar? (trim part) with
  | some literal =>
      have same : item (trim part) = literal := by
        rw [item, read]
        rfl
      rw [same] at recovers ⊢
      obtain ⟨spelled, again⟩ := spelled_of_scalar? read recovers
      exact spelled.isPart again
  | none => exact isPart_of_scalar?_eq_none closed shows read

/-- The items of a list are those of parts that show something, by induction on the parts. -/
theorem exists_part_of_items? {parts : List (List Char)} {items : List Literal}
    (h : items? parts = some items)
    : ∀ literal ∈ items, ∃ part ∈ parts, trim part ≠ [] ∧ literal = item (trim part) := by
  induction parts generalizing items with
  | nil =>
      obtain rfl := Option.some.inj h
      exact List.forall_mem_nil _
  | cons part parts ih =>
      cases parts with
      | nil =>
          simp only [items?] at h
          split at h
          · obtain rfl := Option.some.inj h
            exact List.forall_mem_nil _
          · next shows =>
            obtain rfl := Option.some.inj h
            have some : trim part ≠ [] := fun none => shows (List.isEmpty_iff.mpr none)
            exact List.forall_mem_singleton.mpr ⟨part, List.mem_cons_self, some, rfl⟩
      | cons next parts =>
          simp only [items?] at h
          split at h
          · cases h
          · next shows =>
            obtain ⟨others, read, rfl⟩ := Option.map_eq_some_iff.mp h
            have some : trim part ≠ [] := fun none => shows (List.isEmpty_iff.mpr none)
            refine List.forall_mem_cons.mpr ⟨⟨part, List.mem_cons_self, some, rfl⟩, ?_⟩
            intro literal member
            obtain ⟨later, found, reads⟩ := ih read literal member
            exact ⟨later, List.mem_cons_of_mem part found, reads⟩

/-- A list that was read has its items from closed parts that show something. -/
theorem exists_parts_of_readList? {text : List Char} {literal : Literal}
    (h : readList? text = some literal)
    : ∃ items, literal = .list items
        ∧ ∀ other ∈ items, ∃ part, Closed part ∧ trim part ≠ [] ∧ other = item (trim part) := by
  simp only [readList?, Option.bind_eq_bind, Option.bind_eq_some_iff] at h
  obtain ⟨_, _, inner, _, parts, divided, items, read, written⟩ := h
  refine ⟨items, (Option.some.inj written).symm, fun literal member => ?_⟩
  obtain ⟨part, found, shows, same⟩ := exists_part_of_items? read literal member
  exact ⟨part, closed_of_partsFrom rfl divided part found, shows, same⟩

/-- A list that was read holds parts, if its floats are read back. -/
theorem exists_items_of_readList? {text : List Char} {literal : Literal}
    (h : readList? text = some literal) (recover : literal.FloatsRecover)
    : ∃ items, literal = .list items ∧ ∀ item ∈ items, item.IsPart := by
  obtain ⟨items, rfl, parts⟩ := exists_parts_of_readList? h
  refine ⟨items, rfl, fun literal member => ?_⟩
  obtain ⟨part, closed, shows, rfl⟩ := parts literal member
  exact isPart_item closed shows (recover _ member)

-----------------------------------------------------------------------------------------
-- Any literal that was read
-----------------------------------------------------------------------------------------

/-- A literal that was read is read again from its source form, a text without outer blanks; by
cases on what the first text was read as. -/
theorem IsRead.read_source {literal : Literal} (h : literal.IsRead)
    (recover : literal.FloatsRecover)
    : Trimmed literal.source.toList ∧ decodeChars literal.source.toList = literal := by
  obtain ⟨text, rfl⟩ := h
  have again (literal : Literal) (trimmed : Trimmed literal.source.toList)
      (read : ofTrimmed literal.source.toList = literal)
      : Trimmed literal.source.toList ∧ decodeChars literal.source.toList = literal := by
    refine ⟨trimmed, ?_⟩
    rw [decodeChars, show trim literal.source.toList = _ from trimmed, read]
  cases scalar : scalar? (trim text) with
  | some literal =>
      have same : decodeChars text = literal := by
        rw [decodeChars, ofTrimmed, scalar]
        rfl
      rw [same] at recover ⊢
      have recovers : literal.Recovers := by
        rcases cases_of_scalar? scalar with plain | ⟨value, rfl⟩
        · exact plain.recovers
        · exact recover
      obtain ⟨spelled, read⟩ := spelled_of_scalar? scalar recovers
      refine again literal spelled.shown.trimmed ?_
      rw [ofTrimmed, read]
      rfl
  | none =>
      cases list : readList? (trim text) with
      | some literal =>
          have same : decodeChars text = literal := by
            rw [decodeChars, ofTrimmed, scalar, list]
            rfl
          rw [same] at recover ⊢
          obtain ⟨items, rfl, parts⟩ := exists_items_of_readList? list recover
          exact again (.list items) (trimmed_source_list items) (ofTrimmed_source_parts parts)
      | none =>
          have same : decodeChars text = .verbatim (.ofList (trim text)) := by
            rw [decodeChars, ofTrimmed, scalar, list]
            rfl
          have written : (decodeChars text).source.toList = trim text := by
            rw [same, source, String.toList_ofList]
          refine again (decodeChars text) ?_ ?_ <;> rw [written]
          · exact trimmed_trim text
          · rfl

end QuizVariants.Literal
