import Mathlib.Data.List.Forall2
import QuizVariants.Proofs.Literal.Scalars
import QuizVariants.Proofs.Text.Affixes

/-! Literals read back.
A list is written with a comma and a blank between its items; the commas divide it into parts that
are read one by one.
-/

namespace QuizVariants.Literal

open QuizVariants.Text

/-- A scalar, or a list of scalars. -/
def IsPlain : Literal → Prop
  | .list items => ∀ item ∈ items, item.IsScalar
  | literal => literal.IsScalar

theorem isPlain_iff {literal : Literal}
    : literal.IsPlain
      ↔ literal.IsScalar ∨ ∃ items, literal = .list items ∧ ∀ item ∈ items, item.IsScalar := by
  cases literal <;> simp [IsPlain, IsScalar]

/-- The items between commas: all but the first one have a blank in front of them. -/
def spacedParts : List (List Char) → List (List Char)
  | [] => [[]]
  | first :: rest => first :: rest.map (fun part => ' ' :: part)

/-- A blank behind a comma is one in front of the next item, by induction on the items. -/
theorem joinWith_spacedParts (parts : List (List Char))
    : joinWith [',', ' '] parts = joinWith [','] (spacedParts parts) := by
  cases parts with
  | nil => rfl
  | cons first rest =>
      induction rest generalizing first with
      | nil => rfl
      | cons next rest ih =>
          have split : joinWith [',', ' '] (first :: next :: rest)
              = first ++ [',', ' '] ++ joinWith [',', ' '] (next :: rest) := rfl
          rw [split, ih next]
          cases rest <;> simp [spacedParts, joinWith]

/-- A part in which nothing divides stays closed behind a blank. -/
theorem closed_spacedParts {parts : List (List Char)} (h : ∀ part ∈ parts, Closed part)
    : ∀ part ∈ spacedParts parts, Closed part := by
  cases parts with
  | nil =>
      intro part member
      obtain rfl := List.mem_singleton.mp member
      rfl
  | cons first rest =>
      obtain ⟨closed, others⟩ := List.forall_mem_cons.mp h
      refine List.forall_mem_cons.mpr ⟨closed, ?_⟩
      intro part member
      obtain ⟨inner, found, rfl⟩ := List.mem_map.mp member
      have blank : Closed [' '] := rfl
      exact blank.append (others inner found)

/-- A literal whose source form can stand between the commas of a list. -/
structure FitsList (literal : Literal) : Prop where
  trimmed : Trimmed literal.source.toList
  shows : literal.source.toList ≠ []
  closed : Closed literal.source.toList

/-- A literal that a list can hold: its source form is a part of its own, which is read as the
literal. -/
structure IsPart (literal : Literal) : Prop extends FitsList literal where
  read : item literal.source.toList = literal

theorem Spelled.isPart {literal : Literal} (h : Spelled literal.source.toList)
    (read : scalar? literal.source.toList = some literal)
    : literal.IsPart := by
  refine ⟨⟨h.shown.trimmed, h.shown.shows, h.closed⟩, ?_⟩
  rw [item, read]
  rfl

theorem IsScalar.isPart {literal : Literal} (h : literal.IsScalar) : literal.IsPart :=
  (spelled_source h).isPart (scalar?_source h)

/-- A part of a list that stands for an item, blanks around it not counting. -/
def ReadsAs (part : List Char) (literal : Literal) : Prop :=
  trim part ≠ [] ∧ item (trim part) = literal

/-- Parts that all stand for items are read as these, by induction on them. -/
theorem items?_of_readsAs {parts : List (List Char)} {items : List Literal}
    (h : List.Forall₂ ReadsAs parts items)
    : items? parts = some items := by
  induction h with
  | nil => rfl
  | @cons part literal parts items reads _ ih =>
      have shows : (trim part).isEmpty = false := List.isEmpty_eq_false_iff.mpr reads.1
      cases parts with
      | nil =>
          obtain rfl := Option.some.inj ih
          simp [items?, shows, reads.2]
      | cons next parts =>
          simp [items?, shows, reads.2, ih]

/-- What the source form of a literal stands for between the commas of a list. -/
def inList (literal : Literal) : Literal :=
  item literal.source.toList

/-- A part stands for the same item with a blank in front of it. -/
theorem FitsList.readsAs {literal : Literal} (h : literal.FitsList)
    : ReadsAs literal.source.toList literal.inList
      ∧ ReadsAs (' ' :: literal.source.toList) literal.inList := by
  have trimmed : trim literal.source.toList = literal.source.toList := h.trimmed
  have plain : ReadsAs literal.source.toList literal.inList := by
    rw [ReadsAs, trimmed]
    exact ⟨h.shows, rfl⟩
  refine ⟨plain, ?_⟩
  rwa [ReadsAs, trim_cons_of_isBlank (by decide)]

/-- The parts of a list are read as what each of them stands for. -/
theorem readsAs_spacedParts {items : List Literal} (some : items ≠ [])
    (h : ∀ item ∈ items, item.FitsList)
    : List.Forall₂ ReadsAs (spacedParts (items.map (fun item => item.source.toList)))
        (items.map inList) := by
  cases items with
  | nil => exact absurd rfl some
  | cons first rest =>
      obtain ⟨part, others⟩ := List.forall_mem_cons.mp h
      refine .cons part.readsAs.1 ?_
      rw [List.map_map, List.forall₂_map_left_iff, List.forall₂_map_right_iff]
      exact List.forall₂_same.mpr (fun item member => (others item member).readsAs.2)

theorem joinWith_eq_intercalate (separator : List Char) (parts : List (List Char))
    : joinWith separator parts = separator.intercalate parts := by
  induction parts with
  | nil => rfl
  | cons part parts ih =>
      cases parts with
      | nil => simp [joinWith, List.intercalate]
      | cons next parts =>
          rw [joinWith, ih]
          · simp [List.intercalate]
          · exact List.cons_ne_nil _ _

theorem sources_eq_map (items : List Literal) : sources items = items.map source := by
  induction items with
  | nil => rfl
  | cons item items ih => rw [sources, ih, List.map_cons]

theorem source_list (items : List Literal)
    : (source (.list items)).toList
        = '[' :: joinWith [',', ' '] (items.map (fun item => item.source.toList)) ++ [']'] := by
  simp [source, String.toList_intercalate, sources_eq_map, joinWith_eq_intercalate]
  rfl

theorem scalar?_bracket (text : List Char) : scalar? ('[' :: text) = none := by
  have number : readNumber? ('[' :: text) = none := readNumber?_eq_none (by decide) (by decide)
  have keyword : readKeyword? ('[' :: text) = none := readKeyword?_eq_none rfl
  have string : readString? ('[' :: text) = none := by
    have triples (mark : Char) (h : mark ≠ '[') : betweenTriples? mark ('[' :: text) = none := by
      rw [betweenTriples?, triple, after?_eq_none]
      · rfl
      · exact fun same => h (Option.some.inj same).symm
    rw [readString?, triples '"' (by decide), triples '\'' (by decide)]
    rfl
  rw [scalar?, number, keyword, string]
  rfl

/-- A list is read as the list of what its items stand for. -/
theorem readList?_source {items : List Literal} (h : ∀ item ∈ items, item.FitsList)
    : readList? (source (.list items)).toList = some (.list (items.map inList)) := by
  have parts : ∃ parts,
      parts? (joinWith [',', ' '] (items.map (fun item => item.source.toList))) = some parts
      ∧ items? parts = some (items.map inList) := by
    -- The list without items is read from a single part that is empty.
    cases items with
    | nil => exact ⟨[[]], rfl, rfl⟩
    | cons first rest =>
        have closed : ∀ part ∈ (first :: rest).map (fun item => item.source.toList),
            Closed part := by
          intro part member
          obtain ⟨item, found, rfl⟩ := List.mem_map.mp member
          exact (h item found).closed
        refine ⟨_, ?_, items?_of_readsAs (readsAs_spacedParts (List.cons_ne_nil _ _) h)⟩
        rw [joinWith_spacedParts]
        exact parts?_joinWith (List.cons_ne_nil _ _) (closed_spacedParts closed)
  obtain ⟨parts, divided, read⟩ := parts
  rw [source_list, readList?, List.cons_append, after?_singleton]
  simp [before?_append, divided, read]

/-- A list is read as a list, since no scalar starts with a bracket. -/
theorem ofTrimmed_source_list {items : List Literal} (h : ∀ item ∈ items, item.FitsList)
    : ofTrimmed (source (.list items)).toList = .list (items.map inList) := by
  rw [ofTrimmed, readList?_source h, source_list, List.cons_append, scalar?_bracket]
  rfl

/-- A list whose items are parts is read back. -/
theorem ofTrimmed_source_parts {items : List Literal} (h : ∀ item ∈ items, item.IsPart)
    : ofTrimmed (source (.list items)).toList = .list items := by
  rw [ofTrimmed_source_list (fun item member => (h item member).toFitsList)]
  have same : items.map inList = items.map id :=
    List.map_congr_left (fun item member => (h item member).read)
  rw [same, List.map_id]

theorem trimmed_source_list (items : List Literal) : Trimmed (source (.list items)).toList := by
  rw [source_list]
  exact trimmed_between (by decide) (by decide) _

/-- The source form of a plain literal is a trimmed text on one line. -/
theorem shown_source {literal : Literal} (h : literal.IsPlain) : Shown literal.source.toList := by
  rcases isPlain_iff.mp h with scalar | ⟨items, rfl, scalars⟩
  · exact (spelled_source scalar).shown
  · refine ⟨trimmed_source_list items, ?_, fun newline => ?_⟩
    · rw [source_list]
      exact List.cons_ne_nil _ _
    · rw [source_list] at newline
      rcases List.mem_append.mp newline with inside | closing
      · rcases List.mem_cons.mp inside with opening | inside
        · exact absurd opening (by decide)
        · rcases mem_joinWith inside with between | ⟨part, member, inside⟩
          · exact absurd between (by decide)
          · obtain ⟨item, found, rfl⟩ := List.mem_map.mp member
            exact (spelled_source (scalars item found)).shown.plain inside
      · exact absurd closing (by decide)

/-- A plain literal is read back from its source form, by cases on its kind. -/
theorem decodeChars_source {literal : Literal} (h : literal.IsPlain)
    : decodeChars literal.source.toList = literal := by
  have trimmed : trim literal.source.toList = literal.source.toList := (shown_source h).trimmed
  rw [decodeChars, trimmed]
  rcases isPlain_iff.mp h with scalar | ⟨items, rfl, scalars⟩
  · rw [ofTrimmed, scalar?_source scalar]
    rfl
  · exact ofTrimmed_source_parts (fun item member => (scalars item member).isPart)

end QuizVariants.Literal
