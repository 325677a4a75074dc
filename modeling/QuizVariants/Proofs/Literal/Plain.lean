import Mathlib.Data.List.Basic
import QuizVariants.Proofs.Literal.Scalars
import QuizVariants.Proofs.Text.Affixes

/-! Texts between marks as they stand.
A text that holds nothing to escape is written between quotation marks as it is. Such a text is read
back, whichever of the two marks stands around it.
-/

namespace QuizVariants.Literal

open QuizVariants.Text

/-- A text that needs no escapes between quotation marks. -/
def NeedsNoEscapes (text : List Char) : Prop :=
  ∀ c ∈ text, c ∉ ['\\', '"', '\'', '\n', '\t']

instance (text : List Char) : Decidable (NeedsNoEscapes text) :=
  List.decidableBAll _ text

/-- A text between two marks. -/
def enclose (mark : Char) (text : List Char) : List Char :=
  mark :: text ++ [mark]

theorem NeedsNoEscapes.apart {text : List Char} (h : NeedsNoEscapes text) {mark : Char}
    (quote : isQuote mark = true)
    : mark ∉ text := by
  intro member
  rw [isQuote, Bool.or_eq_true, beq_iff_eq, beq_iff_eq] at quote
  rcases quote with rfl | rfl
  · exact h _ member (by decide)
  · exact h _ member (by decide)

/-- Nothing is escaped in a text without need for it. -/
theorem quote_of_needsNoEscapes {text : List Char} (h : NeedsNoEscapes text)
    : quote text = enclose '"' text := by
  have each : text.flatMap escapeChar = text.flatMap (fun c => [c]) := by
    refine List.flatMap_congr (fun c member => ?_)
    have apart := h c member
    simp only [List.mem_cons, List.not_mem_nil, or_false, not_or] at apart
    obtain ⟨slash, mark, _, newline, tab⟩ := apart
    rw [escapeChar, if_neg slash, if_neg mark, if_neg newline, if_neg tab]
  rw [quote, each, List.flatMap_singleton']
  rfl

/-- A text is read up to the mark behind it, by induction on the text. -/
theorem unquote_of_needsNoEscapes {mark : Char} {text : List Char} (quote : isQuote mark = true)
    (h : NeedsNoEscapes text) (rest : List Char)
    : unquote mark (text ++ mark :: rest) = some (text, rest) := by
  induction text with
  | nil =>
      have slash : mark ≠ '\\' := ne_of_kind quote rfl
      rw [List.nil_append, unquote.eq_4 mark mark rest slash, if_pos rfl]
  | cons c text ih =>
      have other := h.apart quote
      obtain ⟨first, others⟩ := List.forall_mem_cons.mp h
      simp only [List.mem_cons, List.not_mem_nil, or_false, not_or] at first
      have unmarked : c ≠ mark := fun same => other (same ▸ List.mem_cons_self)
      rw [List.cons_append, unquote_cons first.1 unmarked first.2.2.2.1, ih others]
      rfl

/-- A text between single marks does not open with three of them. -/
theorem after?_triple_enclose {mark : Char} {text : List Char} (quote : isQuote mark = true)
    (h : NeedsNoEscapes text) (other : Char)
    : after? (triple other) (enclose mark text) = none := by
  cases found : after? (triple other) (enclose mark text) with
  | none => rfl
  | some rest =>
      have split := after?_eq_some_iff.mp found
      rw [enclose, triple, List.cons_append] at split
      obtain ⟨rfl, inside⟩ := List.cons.inj split
      cases text with
      | nil => cases inside
      | cons c text =>
          have first : c = mark := (List.cons.inj inside).1
          exact absurd (first ▸ List.mem_cons_self) (h.apart quote)

theorem readString?_enclose {mark : Char} {text : List Char} (quote : isQuote mark = true)
    (h : NeedsNoEscapes text)
    : readString? (enclose mark text) = some (.quoted (.ofList text)) := by
  have between (other : Char) : betweenTriples? other (enclose mark text) = none := by
    rw [betweenTriples?, after?_triple_enclose quote h]
    rfl
  have read := unquote_of_needsNoEscapes quote h []
  rw [readString?, between, between, enclose, List.cons_append]
  simp only [singleQuoted?, quote, if_true, read]

/-- A text that needs no escapes is read back from between its marks. -/
theorem decodeChars_enclose {mark : Char} {text : List Char} (quote : isQuote mark = true)
    (h : NeedsNoEscapes text)
    : decodeChars (enclose mark text) = .quoted (.ofList text) := by
  have shows : isBlank mark = false ∧ isDigit mark = false ∧ startsName mark = false
      ∧ mark ∉ ['-', '+', '.'] := by
    rw [isQuote, Bool.or_eq_true, beq_iff_eq, beq_iff_eq] at quote
    rcases quote with rfl | rfl <;> decide
  have trimmed : trim (enclose mark text) = enclose mark text :=
    trimmed_between shows.1 shows.1 text
  have number : readNumber? (enclose mark text) = none := readNumber?_eq_none shows.2.1 shows.2.2.2
  have keyword : readKeyword? (enclose mark text) = none := readKeyword?_eq_none shows.2.2.1
  rw [decodeChars, trimmed, ofTrimmed, scalar?, number, keyword, readString?_enclose quote h]
  rfl

end QuizVariants.Literal
