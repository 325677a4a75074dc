import QuizVariants.Proofs.Template.Openings

/-! Substitution in joined texts.
The search for placeholders starts anew behind each of them, so that it comes through a text whose
openings are all closed into whatever follows as if it started there. The substitution of two texts
in a row is then that of one after that of the other.
-/

namespace QuizVariants

namespace Template

open QuizVariants.Text
open QuizVariants.Random

-----------------------------------------------------------------------------------------
-- Texts in which every opening is closed
-----------------------------------------------------------------------------------------

/-- Every opening of a text lies in a complete placeholder of that text, which may open in front of
it. -/
def Covered (text : List Char) : Prop :=
  ∀ before body,
    text = before ++ (opening ++ body)
    → ∃ front source rest,
        text = front ++ (opening ++ (source ++ '}' :: rest))
        ∧ depth? 0 source = some 0
        ∧ front.length ≤ before.length
        ∧ before.length + opening.length ≤ front.length + opening.length + source.length + 1

/-- An opening that lies in a complete placeholder is closed. -/
theorem not_unclosed_of_inside {front source rest before body : List Char}
    (closed : depth? 0 source = some 0)
    (split : front ++ (opening ++ (source ++ '}' :: rest)) = before ++ (opening ++ body))
    (starts : front.length ≤ before.length)
    (ends : before.length + opening.length ≤ front.length + opening.length + source.length + 1)
    : ¬ Unclosed body := by
  obtain ⟨between, rfl⟩ : front <+: before :=
    List.prefix_of_prefix_length_le ⟨_, split⟩ ⟨_, rfl⟩ starts
  rw [List.append_assoc] at split
  rcases closed_or_behind closed (List.append_cancel_left split) with closes | ⟨behind, rfl, _⟩
  · exact closes
  · simp only [opening, List.length_append, List.length_cons, List.length_nil] at ends
    omega

/-- A text is covered exactly if nothing in it opens without being closed. -/
theorem covered_iff {text : List Char}
    : Covered text ↔ ∀ before body, text = before ++ (opening ++ body) → ¬ Unclosed body := by
  constructor
  · intro covered before body split
    obtain ⟨front, source, rest, around, closed, starts, ends⟩ := covered before body split
    exact not_unclosed_of_inside closed (around.symm.trans split) starts ends
  · rintro closes before body rfl
    rcases closeBrace?_cases 0 body with ⟨source, rest, rfl, closed⟩ | ⟨_, still⟩
    · exact ⟨before, source, rest, rfl, closed, Nat.le_refl _, by omega⟩
    · exact absurd (unclosed_iff.mpr still) (closes before body rfl)

theorem covered_nil : Covered [] := by
  refine covered_iff.mpr fun before body split => ?_
  simp [opening] at split

/-- What stands behind a part of a covered text is covered. -/
theorem Covered.of_append {front text : List Char} (h : Covered (front ++ text))
    : Covered text := by
  refine covered_iff.mpr fun before body split => ?_
  exact covered_iff.mp h (front ++ before) body (by rw [split, List.append_assoc])

/-- A placeholder in front of a covered text gives a covered one. -/
theorem Covered.slot {source rest : List Char} (h : Covered rest)
    (closed : depth? 0 source = some 0)
    : Covered (opening ++ (source ++ '}' :: rest)) := by
  refine covered_iff.mpr fun before body split => ?_
  rcases closed_or_behind closed split with closes | ⟨front, _, behind⟩
  · exact closes
  · exact covered_iff.mp h front body behind

/-- The first placeholder of a covered text stands behind text without an opening, and without one
there is no opening at all. -/
theorem Covered.firstSlot?_cases {text : List Char} (h : Covered text)
    : NoOpening text
      ∨ ∃ before source rest,
          text = before ++ (opening ++ (source ++ '}' :: rest))
          ∧ NoOpening before
          ∧ depth? 0 source = some 0 := by
  cases opens : breakOn opening text with
  | none => exact Or.inl opens
  | some split =>
      obtain ⟨before, body⟩ := split
      have whole : text = before ++ (opening ++ body) := by
        rw [← append_of_breakOn opens, List.append_assoc]
      rcases closeBrace?_cases 0 body with ⟨source, rest, rfl, closed⟩ | ⟨_, still⟩
      · exact Or.inr ⟨before, source, rest, whole, noOpening_of_breakOn opens, closed⟩
      · exact absurd (unclosed_iff.mpr still) (covered_iff.mp h before body whole)

-----------------------------------------------------------------------------------------
-- Rendering of joined texts
-----------------------------------------------------------------------------------------

theorem Rendered.append_assoc (first second third : Rendered)
    : (first.append second).append third = first.append (second.append third) := by
  simp [Rendered.append, String.append_assoc]

theorem Rendered.nil_append (rendered : Rendered)
    : Rendered.append ⟨"", []⟩ rendered = rendered := by
  simp [Rendered.append]

/-- Templates in a row are rendered one after the other, by induction on the first one. -/
theorem run_render_append (scope : Scope) (front back : Template) (draws : Draws)
    : let first := (render scope front).run draws
      let rest := (render scope back).run first.2
      (render scope (front ++ back)).run draws = (first.1.append rest.1, rest.2) := by
  induction front generalizing draws with
  | nil => exact Prod.ext (Rendered.nil_append _).symm rfl
  | cons piece pieces ih =>
      have rest := ih ((renderPiece scope piece).run draws).2
      simp only [List.cons_append, run_render_cons, rest, Rendered.append_assoc]

theorem run_render_literal (scope : Scope) (text : List Char) (draws : Draws)
    : (render scope (literal text)).run draws = (⟨.ofList text, []⟩, draws) := by
  rw [literal]
  split
  · next empty => rw [List.isEmpty_iff.mp empty]; rfl
  · have kept : Rendered.append ⟨.ofList text, []⟩ ⟨"", []⟩ = ⟨.ofList text, []⟩ := by
      simp [Rendered.append]
    exact congrArg (·, draws) kept

theorem run_render_literal_append (scope : Scope) (text : List Char) (template : Template)
    (draws : Draws)
    : let rest := (render scope template).run draws
      (render scope (literal text ++ template)).run draws
        = (Rendered.append ⟨.ofList text, []⟩ rest.1, rest.2) := by
  rw [run_render_append, run_render_literal]

/-- A text that opens nothing stays as it is in front of whatever it goes on with. -/
theorem NoOpening.run_render_append {text behind : List Char} (h : NoOpening text)
    (apart : JoinsApart text behind) (scope : Scope) (draws : Draws)
    : let rest := (render scope (ofChars behind)).run draws
      (render scope (ofChars (text ++ behind))).run draws
        = (Rendered.append ⟨.ofList text, []⟩ rest.1, rest.2) := by
  have first := firstSlot?_append h apart
  cases found : firstSlot? behind with
  | none =>
      rw [found] at first
      rw [ofChars_of_none first, ofChars_of_none found, run_render_literal, run_render_literal]
      simp [Rendered.append]
  | some slot =>
      obtain ⟨before, source, rest⟩ := slot
      rw [found] at first
      intro others
      simp only [others, ofChars_of_some first, ofChars_of_some found, run_render_literal_append,
        ← Rendered.append_assoc]
      simp [Rendered.append]

theorem NoOpening.run_render {text : List Char} (h : NoOpening text) (scope : Scope) (draws : Draws)
    : (render scope (ofChars text)).run draws = (⟨.ofList text, []⟩, draws) := by
  have none : firstSlot? text = none := by
    rw [firstSlot?, show breakOn opening text = none from h]
    rfl
  rw [ofChars_of_none none, run_render_literal]

/-- The template of a text starts anew behind its first placeholder. -/
theorem NoOpening.ofChars_slot {before source : List Char} (h : NoOpening before)
    (closed : depth? 0 source = some 0) (rest : List Char)
    : ofChars (before ++ (opening ++ (source ++ '}' :: rest)))
        = literal before ++ [.slot { source := .ofList source }] ++ ofChars rest := by
  have apart : JoinsApart before (opening ++ (source ++ '}' :: rest)) :=
    fun _ => by simp [opening]
  have first : firstSlot? (before ++ (opening ++ (source ++ '}' :: rest)))
      = some (before, source, rest) := by
    rw [firstSlot?_append h apart, firstSlot?_opening, closeBrace?_append closed]
    simp
  rw [ofChars_of_some first, List.append_assoc, List.singleton_append]

/-- A covered text is rendered to its end before what follows it, by induction on its length. -/
theorem Covered.run_render_append {text : List Char} (h : Covered text) {behind : List Char}
    (apart : JoinsApart text behind) (scope : Scope) (draws : Draws)
    : let first := (render scope (ofChars text)).run draws
      let rest := (render scope (ofChars behind)).run first.2
      (render scope (ofChars (text ++ behind))).run draws = (first.1.append rest.1, rest.2) := by
  rcases h.firstSlot?_cases with silent | ⟨before, source, after, rfl, silent, closed⟩
  · intro first
    rw [silent.run_render_append apart, show first = _ from silent.run_render scope draws]
  · have whole : before ++ (opening ++ (source ++ '}' :: after))
        = (before ++ (opening ++ (source ++ ['}']))) ++ after := by
      simp
    rw [whole] at h apart
    have shorter : after.length < (before ++ (opening ++ (source ++ '}' :: after))).length := by
      simp only [List.length_append, List.length_cons]
      omega
    have joined : before ++ (opening ++ (source ++ '}' :: after)) ++ behind
        = before ++ (opening ++ (source ++ '}' :: (after ++ behind))) := by
      simp
    intro first
    have others := h.of_append.run_render_append apart.of_append scope
    rw [joined, silent.ofChars_slot closed, Template.run_render_append, others,
      ← Rendered.append_assoc]
    simp only [first, silent.ofChars_slot closed, Template.run_render_append]
termination_by text.length

-----------------------------------------------------------------------------------------
-- Substitution
-----------------------------------------------------------------------------------------

/-- The substitution of joined texts.
Let every opening of a text lie in a complete placeholder of it, and let no opening come about
where another text follows. Then the substitution of both together is the substitution of the first
one followed by that of the second one: the second one runs on the draws that the first one leaves,
the texts that come out are joined, and so are the placeholders without a value. Nothing that the
scope puts into the first text is read as part of the second one.
-/
theorem substitute_append {first second : String} (covered : Covered first.toList)
    (apart : ¬ (first.toList.getLast? = some '@' ∧ second.toList.head? = some '{'))
    (scope : Scope) (draws : Draws)
    : let before := (substitute scope first).run draws
      let after := (substitute scope second).run before.2
      (substitute scope (first ++ second)).run draws
        = (⟨before.1.text ++ after.1.text, before.1.unresolved ++ after.1.unresolved⟩,
          after.2) := by
  have joins : JoinsApart first.toList second.toList := fun last brace => apart ⟨last, brace⟩
  have joined := covered.run_render_append joins scope draws
  rw [← String.toList_append] at joined
  exact joined

/-- A value that is written like a placeholder is not read again where a brace follows it. -/
theorem substitute_append_template
    : Covered "@\x7bt\x7d".toList
      ∧ ¬ ("@\x7bt\x7d".toList.getLast? = some '@' ∧ "\x7bn\x7d".toList.head? = some '{')
      ∧ ((substitute scopeWithTemplate ("@\x7bt\x7d" ++ "\x7bn\x7d")).run (.ofSeed 0)).1
        = ⟨"@\x7bn\x7d\x7bn\x7d", []⟩ := by
  have covered : Covered "@\x7bt\x7d".toList := @Covered.slot ['t'] [] covered_nil rfl
  have apart
      : ¬ ("@\x7bt\x7d".toList.getLast? = some '@' ∧ "\x7bn\x7d".toList.head? = some '{') := by
    decide
  refine ⟨covered, apart, ?_⟩
  rw [substitute_append covered apart]
  decide +kernel

end Template

end QuizVariants
