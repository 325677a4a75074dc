import QuizVariants.Proofs.Literal.Groups

/-! Parts on their own.
Division undoes joining: a text is its parts with commas in between, and each of them has itself for
its only part. Any such texts are found again between the commas that join them. A text has parts
exactly if it closes its strings, and as many brackets as it opens.
-/

namespace QuizVariants.Literal

open QuizVariants.Text

-----------------------------------------------------------------------------------------
-- Texts that have parts
-----------------------------------------------------------------------------------------

/-- A comma that divides does not change the place of a scan. -/
theorem Place.step_of_divides {place : Place} {c : Char} (h : place.divides c = true)
    : place.step c = place := by
  obtain ⟨comma, unmarked, _⟩ := divides_iff.mp h
  subst comma
  simp [step, unmarked, isQuote, opensBracket, closesBracket]

/-- A list has parts if it may end where a scan of it ends, by induction on the rest of the list. -/
theorem isSome_partsFrom (place : Place) (part text : List Char)
    : (partsFrom place part text).isSome = (text.foldl Place.step place).closed := by
  induction text generalizing place part with
  | nil =>
      simp only [partsFrom, List.foldl_nil]
      cases place.closed <;> rfl
  | cons c text ih =>
      simp only [partsFrom, List.foldl_cons]
      split
      · next divides =>
        have stays := Place.step_of_divides divides
        simp only [Option.isSome_map, ih, stays]
      · exact ih (place.step c) (c :: part)

theorem isSome_parts?_iff {text : List Char} : (parts? text).isSome ↔ LeavesOpen text 0 := by
  have ends := isSome_partsFrom .start [] text
  rw [Place.closed_eq] at ends
  rw [parts?, ends]
  exact divides_comma_iff

/-- A text is its own only part exactly if no comma divides it. -/
theorem parts?_eq_self_iff {part : List Char} : parts? part = some [part] ↔ Whole part := by
  constructor
  · intro alone
    exact (parts?_eq_some_iff.mp alone).whole part (List.mem_singleton_self part)
  · intro whole
    have divides : Divides part [part] :=
      ⟨List.cons_ne_nil _ _, rfl, List.forall_mem_singleton.mpr whole⟩
    exact parts?_eq_some_iff.mpr divides

-----------------------------------------------------------------------------------------
-- The counter of brackets
-----------------------------------------------------------------------------------------

/-- A character opens or closes at most one bracket. -/
theorem Place.natAbs_depth_step (place : Place) (c : Char)
    : (place.step c).depth.natAbs ≤ place.depth.natAbs + 1 := by
  unfold step
  split
  · split
    · exact Nat.le_succ _
    · split
      · exact Nat.le_succ _
      · split <;> exact Nat.le_succ _
  · split
    · exact Nat.le_succ _
    · split
      · exact Int.natAbs_add_le place.depth 1
      · split
        · exact Int.natAbs_sub_le place.depth 1
        · exact Nat.le_succ _

/-- The counter stays within the length of what was scanned, by induction on that. A word of
thirty-two bits therefore holds it for every text of fewer than two to the thirty-first characters.
-/
theorem Place.natAbs_depth_foldl (place : Place) (text : List Char)
    : (text.foldl step place).depth.natAbs ≤ place.depth.natAbs + text.length := by
  induction text generalizing place with
  | nil => exact Nat.le_refl _
  | cons c text ih =>
      have first := place.natAbs_depth_step c
      have others := ih (place.step c)
      simp only [List.foldl_cons, List.length_cons]
      omega

-----------------------------------------------------------------------------------------
-- Division and joining
-----------------------------------------------------------------------------------------

/-- Division and joining are inverse to each other.
A text has some parts exactly if it is these parts with commas in between and each of them is its
own only part. It has parts if it closes its strings and as many brackets as it opens, and it is its
own only part if also no comma in it stands outside of them. At no place of the text does the scan
count more brackets than the text has characters. -/
theorem parts?_joined (text : List Char)
    : (∀ parts,
        parts? text = some parts
        ↔ parts ≠ []
          ∧ joinWith [','] parts = text
          ∧ ∀ part ∈ parts, parts? part = some [part])
      ∧ ((parts? text).isSome ↔ LeavesOpen text 0)
      ∧ (parts? text = some [text] ↔ Whole text)
      ∧ ∀ front, front <+: text → (front.foldl Place.step .start).depth.natAbs ≤ text.length := by
  refine ⟨?division, isSome_parts?_iff, parts?_eq_self_iff, ?counter⟩
  case division =>
    intro parts
    constructor
    · intro found
      have divides := parts?_eq_some_iff.mp found
      refine ⟨divides.some, divides.joined, ?_⟩
      intro part member
      exact parts?_eq_self_iff.mpr (divides.whole part member)
    · intro ⟨nonempty, joined, alone⟩
      have whole : ∀ part ∈ parts, Whole part := by
        intro part member
        exact parts?_eq_self_iff.mp (alone part member)
      exact parts?_eq_some_iff.mpr ⟨nonempty, joined, whole⟩
  case counter =>
    intro front start
    have counted := Place.natAbs_depth_foldl .start front
    have shorter := start.length_le
    simp only [Place.start, Int.natAbs_zero, Nat.zero_add] at counted ⊢
    exact counted.trans shorter

/-- A bracket that is closed before one is opened keeps the comma between them from dividing, and a
mark behind a backslash does not end its string. -/
example
    : parts? "],[,'\\',',f(1, 2)".toList
      = some ["],[".toList, "'\\','".toList, "f(1, 2)".toList] := by
  decide

end QuizVariants.Literal
