import QuizVariants.Proofs.Literal.Quoting
import QuizVariants.Proofs.Text.Bare

/-! Division into parts.
A part in which nothing divides is crossed from one place to another, and parts that are closed in
themselves are found again between the commas that join them.
-/

namespace QuizVariants.Literal

open QuizVariants.Text

/-- Outside of strings and brackets a comma divides. -/
theorem Place.divides_iff {place : Place} {c : Char}
    : place.divides c = true ↔ c = ',' ∧ place.mark = none ∧ place.depth = 0 := by
  simp only [divides, Bool.and_eq_true, beq_iff_eq, Option.isNone_iff_eq_none, and_assoc]

/-- A list may end where a comma divides. -/
theorem Place.closed_eq (place : Place) : place.closed = place.divides ',' := by
  simp only [closed, divides, beq_self_eq_true, Bool.true_and]

/-- The place after a text in which no comma divides. -/
def Place.cross? (place : Place) : List Char → Option Place
  | [] => some place
  | c :: rest => if place.divides c then none else (place.step c).cross? rest

/-- A text can be crossed in two stages, by induction on the first one. -/
theorem Place.cross?_append {place : Place} {first second : List Char}
    : place.cross? (first ++ second)
        = (place.cross? first).bind (fun next => next.cross? second) := by
  induction first generalizing place with
  | nil => rfl
  | cons c first ih =>
      simp only [List.cons_append, cross?]
      split
      · rfl
      · exact ih

/-- A text that is crossed belongs to the current part, by induction on it. -/
theorem partsFrom_append {place next : Place} {part text rest : List Char}
    (h : place.cross? text = some next)
    : partsFrom place part (text ++ rest) = partsFrom next (text.reverse ++ part) rest := by
  induction text generalizing place part with
  | nil =>
      obtain rfl := Option.some.inj h
      rfl
  | cons c text ih =>
      simp only [Place.cross?] at h
      split at h
      · exact nomatch h
      · next inside =>
        rw [List.cons_append, partsFrom, if_neg inside, ih h]
        simp

/-- A part that is closed in itself: nothing divides it, and it ends as it starts. -/
def Closed (part : List Char) : Prop :=
  Place.start.cross? part = some Place.start

theorem Closed.append {first second : List Char} (h : Closed first) (next : Closed second)
    : Closed (first ++ second) := by
  rw [Closed, Place.cross?_append, show Place.start.cross? first = _ from h]
  exact next

/-- The parts between joining commas are the joined ones, by induction on them. -/
theorem parts?_joinWith {parts : List (List Char)} (some : parts ≠ [])
    (h : ∀ part ∈ parts, Closed part)
    : parts? (joinWith [','] parts) = .some parts := by
  induction parts with
  | nil => exact absurd rfl some
  | cons part rest ih =>
      obtain ⟨first, others⟩ := List.forall_mem_cons.mp h
      cases rest with
      | nil =>
          have whole
              : partsFrom .start [] (part ++ []) = partsFrom .start (part.reverse ++ []) [] :=
            partsFrom_append first
          simpa [parts?, joinWith, partsFrom, Place.closed, Place.start] using whole
      | cons next rest =>
          have found := ih (List.cons_ne_nil next rest) others
          have split : joinWith [','] (part :: next :: rest)
              = part ++ ',' :: joinWith [','] (next :: rest) := by
            simp [joinWith]
          -- A closed part ends outside of brackets and strings, where a comma divides.
          have divides : Place.start.divides ',' = true := rfl
          rw [parts?] at found
          rw [split, parts?, partsFrom_append first, partsFrom, if_pos divides, found]
          simp

/-- Characters without a meaning for lists are closed texts. -/
theorem closed_of_plain {text : List Char}
    (h : ∀ c ∈ text, c ≠ ',' ∧ isQuote c = false ∧ opensBracket c = false
      ∧ closesBracket c = false)
    : Closed text := by
  induction text with
  | nil => rfl
  | cons c text ih =>
      obtain ⟨⟨comma, quote, opens, closes⟩, others⟩ := List.forall_mem_cons.mp h
      have step : Place.start.step c = Place.start := by
        simp [Place.step, Place.start, quote, opens, closes]
      have inside : Place.start.divides c = false := by
        simp [Place.divides, comma]
      rw [Closed, Place.cross?, inside, step]
      exact ih others

/-- A text in quotes is crossed up to its closing mark, by induction on the text. -/
theorem cross?_quoteTail (text : List Char)
    : Place.cross? ⟨0, some '"', false⟩ (quoteTail text) = some Place.start := by
  induction text with
  | nil => decide
  | cons c text ih =>
      rw [quoteTail_cons, Place.cross?_append]
      rcases escapeChar_cases c with ⟨same, slash, mark, _⟩ | ⟨d, escaped, _⟩
      · rw [same]
        simpa [Place.cross?, Place.divides, Place.step, slash, mark] using ih
      · rw [escaped]
        simpa [Place.cross?, Place.divides, Place.step] using ih

theorem closed_quote (text : List Char) : Closed (quote text) := by
  rw [Closed, quote_eq, Place.cross?]
  exact cross?_quoteTail text

-----------------------------------------------------------------------------------------
-- The parts of any list
-----------------------------------------------------------------------------------------

/-- A place that a scan reaches: only quotes are open marks, and characters are escaped only
inside of them. -/
structure Place.Reached (place : Place) : Prop where
  quotes : ∀ mark ∈ place.mark, isQuote mark = true
  unescaped : place.mark = none → place.escaped = false

theorem Place.reached_start : Place.start.Reached :=
  ⟨nofun, fun _ => rfl⟩

/-- Every character leads from a reached place to one, by cases on whether a mark is open. -/
theorem Place.Reached.step {place : Place} (h : place.Reached) (c : Char)
    : (place.step c).Reached := by
  unfold Place.step
  split
  · next mark marked =>
    have stays : place.mark ≠ none := fun none => nomatch marked.symm.trans none
    split
    · exact ⟨h.quotes, fun none => absurd none stays⟩
    · next unescaped =>
      split
      · exact ⟨h.quotes, fun none => absurd none stays⟩
      · split
        · exact ⟨nofun, fun _ => Bool.eq_false_iff.mpr unescaped⟩
        · exact h
  · next unmarked =>
    have unescaped := h.unescaped unmarked
    split
    · next quote => exact ⟨fun other same => Option.some.inj same ▸ quote, nofun⟩
    · split
      · exact ⟨h.quotes, fun _ => unescaped⟩
      · split
        · exact ⟨h.quotes, fun _ => unescaped⟩
        · exact h

/-- Whatever is crossed from a reached place leads to one, by induction on the text. -/
theorem Place.Reached.cross? {place next : Place} (h : place.Reached) {text : List Char}
    (crossed : place.cross? text = some next)
    : next.Reached := by
  induction text generalizing place with
  | nil =>
      obtain rfl := Option.some.inj crossed
      exact h
  | cons c text ih =>
      simp only [Place.cross?] at crossed
      split at crossed
      · exact nomatch crossed
      · exact ih (h.step c) crossed

/-- A reached place outside of strings and brackets is the one at the start. -/
theorem Place.Reached.eq_start {place : Place} (h : place.Reached) (unmarked : place.mark = none)
    (flat : place.depth = 0)
    : place = .start := by
  obtain ⟨depth, mark, escaped⟩ := place
  obtain rfl : mark = none := unmarked
  obtain rfl : depth = 0 := flat
  obtain rfl : escaped = false := h.unescaped rfl
  rfl

/-- The parts of a list are closed in themselves, by induction on the rest of the list. -/
theorem closed_of_partsFrom {place : Place} {part text : List Char} {parts : List (List Char)}
    (crossed : Place.start.cross? part.reverse = some place)
    (found : partsFrom place part text = some parts)
    : ∀ part ∈ parts, Closed part := by
  have reached : place.Reached := Place.reached_start.cross? crossed
  induction text generalizing place part parts with
  | nil =>
      simp only [partsFrom] at found
      split at found
      · next closed =>
        obtain rfl := Option.some.inj found
        obtain ⟨_, unmarked, flat⟩ := Place.divides_iff.mp (place.closed_eq ▸ closed)
        obtain rfl := reached.eq_start unmarked flat
        exact List.forall_mem_singleton.mpr crossed
      · exact nomatch found
  | cons c text ih =>
      simp only [partsFrom] at found
      split at found
      · next divides =>
        obtain ⟨rest, split, rfl⟩ := Option.map_eq_some_iff.mp found
        obtain ⟨_, unmarked, flat⟩ := Place.divides_iff.mp divides
        obtain rfl := reached.eq_start unmarked flat
        exact List.forall_mem_cons.mpr ⟨crossed, ih rfl split Place.reached_start⟩
      · next inside =>
        refine ih ?_ found (reached.step c)
        rw [List.reverse_cons, Place.cross?_append, crossed]
        simp [Place.cross?, inside]

/-- A blank has no meaning for lists. -/
theorem plain_of_isBlank {c : Char} (blank : isBlank c = true)
    : c ≠ ',' ∧ isQuote c = false ∧ opensBracket c = false ∧ closesBracket c = false := by
  have apart (other : Char) (shows : isBlank other = false) : c ≠ other := ne_of_kind blank shows
  simp [isQuote, opensBracket, closesBracket, apart ',' rfl, apart '"' rfl, apart '\'' rfl,
    apart '[' rfl, apart '(' rfl, apart '\x7b' rfl, apart ']' rfl, apart ')' rfl, apart '\x7d' rfl]

/-- A blank changes no place outside of strings. -/
theorem Place.step_of_isBlank {place : Place} {c : Char} (blank : isBlank c = true)
    (unmarked : place.mark = none)
    : place.step c = place := by
  obtain ⟨_, quote, opens, closes⟩ := plain_of_isBlank blank
  simp [Place.step, unmarked, quote, opens, closes]

/-- Blanks do not lead back to the start from elsewhere, by induction on them. -/
theorem Place.Reached.eq_start_of_blanks {place : Place} (h : place.Reached) {blanks : List Char}
    (blank : ∀ c ∈ blanks, isBlank c = true) (crossed : place.cross? blanks = some .start)
    : place = .start := by
  induction blanks generalizing place with
  | nil => exact Option.some.inj crossed
  | cons c blanks ih =>
      obtain ⟨first, others⟩ := List.forall_mem_cons.mp blank
      simp only [Place.cross?] at crossed
      split at crossed
      · exact nomatch crossed
      · have next : place.step c = .start := ih (h.step c) others crossed
        cases marked : place.mark with
        | none => rw [← next, Place.step_of_isBlank first marked]
        | some mark =>
            -- A blank closes no string.
            have other : c ≠ mark := by
              rintro rfl
              obtain ⟨_, quote, _⟩ := plain_of_isBlank first
              exact Bool.noConfusion (quote.symm.trans (h.quotes c marked))
            have unmarked : (place.step c).mark = none := congrArg Place.mark next
            simp only [Place.step, marked, if_neg other] at unmarked
            split at unmarked
            · cases unmarked
            · split at unmarked
              · cases unmarked
              · exact nomatch marked.symm.trans unmarked

/-- A closed part stays closed without the blanks around it. -/
theorem Closed.trim {part : List Char} (h : Closed part) : Closed (trim part) := by
  have left : Closed (trimLeft part) := by
    induction part with
    | nil => exact h
    | cons c part ih =>
        cases blank : isBlank c with
        | false => rwa [trimLeft_cons_of_not_isBlank blank]
        | true =>
            rw [trimLeft_cons_of_isBlank blank]
            refine ih ?_
            have step := @Place.step_of_isBlank .start c blank rfl
            have inside : Place.start.divides c = false := by
              simp [Place.divides, (plain_of_isBlank blank).1]
            rwa [Closed, Place.cross?, inside, step] at h
  obtain ⟨blanks, split, blank⟩ := exists_blanks (trimLeft part)
  rw [Closed, split, Place.cross?_append] at left
  obtain ⟨place, crossed, back⟩ := Option.bind_eq_some_iff.mp left
  have reached : place.Reached := Place.reached_start.cross? crossed
  obtain rfl := reached.eq_start_of_blanks blank back
  exact crossed

end QuizVariants.Literal
