import QuizVariants.Proofs.Draws.Runs
import QuizVariants.Proofs.Template.Scan
import QuizVariants.Template.Render

/-! Substitution without loss.
Rendering a template evaluates its placeholders from left to right and then puts the results where
the placeholders stood. What is put in is never looked at again, and everything else is the text of
the author, character by character.
-/

namespace QuizVariants

open QuizVariants.Evaluation
open QuizVariants.Random

-----------------------------------------------------------------------------------------
-- The pieces of a text
-----------------------------------------------------------------------------------------

namespace Template

theorem toList_slotText (source : String)
    : (slotText source).toList = opening ++ source.toList ++ ['}'] := by
  simp [slotText]

theorem join_literal (text : List Char)
    : String.join ((literal text).map pieceText) = .ofList text := by
  rw [literal]
  split
  · next empty => rw [List.isEmpty_iff.mp empty]; rfl
  · simp [pieceText]

/-- The pieces of a text are the text again, by induction on the placeholders that are found. -/
theorem join_ofChars (text : List Char)
    : String.join ((ofChars text).map pieceText) = .ofList text := by
  induction text using ofChars.induct with
  | case1 text found => rw [ofChars_of_none found, join_literal]
  | case2 text before source rest found shorter ih =>
      rw [ofChars_of_some found, List.map_append, List.map_cons, String.join_append,
        String.join_cons, join_literal, ih]
      apply String.toList_injective
      simp [pieceText, toList_slotText, ← append_of_firstSlot? found]

theorem join_compile (text : String)
    : String.join ((compile text).map pieceText) = text :=
  (join_ofChars text.toList).trans String.ofList_toList

-----------------------------------------------------------------------------------------
-- Texts without a placeholder
-----------------------------------------------------------------------------------------

/-- A text with a complete placeholder somewhere in it: all braces that open within it are closed
before it is. -/
def HasPlaceholder (text : List Char) : Prop :=
  ∃ before source rest,
    text = before ++ opening ++ source ++ '}' :: rest ∧ depth? 0 source = some 0

/-- A text is closed behind a part of it that leaves no brace open. -/
theorem depth?_of_closeBrace? {text inner rest : List Char}
    (h : closeBrace? 0 text = some (inner, rest))
    : depth? 0 inner = some 0 := by
  rcases closeBrace?_cases 0 text with ⟨_, _, rfl, closed⟩ | ⟨none, _⟩
  · rw [closeBrace?_append closed] at h
    obtain ⟨rfl, _⟩ := Prod.mk.inj (Option.some.inj h)
    exact closed
  · exact nomatch none.symm.trans h

theorem hasPlaceholder_of_firstSlot? {text before source rest : List Char}
    (h : firstSlot? text = some (before, source, rest))
    : HasPlaceholder text := by
  refine ⟨before, source, rest, (append_of_firstSlot? h).symm, ?_⟩
  simp only [firstSlot?, Option.bind_eq_bind, Option.bind_eq_some_iff, Prod.exists,
    Option.some.injEq, Prod.mk.injEq] at h
  obtain ⟨_, _, _, _, _, closed, _, rfl, _⟩ := h
  exact depth?_of_closeBrace? closed

theorem sources_compile_of_not_hasPlaceholder {text : String} (h : ¬ HasPlaceholder text.toList)
    : (compile text).sources = [] := by
  rw [compile, ← map_snd_placeholders, placeholders_of_none, List.map_nil]
  refine Option.eq_none_iff_forall_ne_some.mpr ?_
  rintro ⟨before, source, rest⟩ found
  exact h (hasPlaceholder_of_firstSlot? found)

end Template

-----------------------------------------------------------------------------------------
-- What becomes of placeholders
-----------------------------------------------------------------------------------------

/-- The results of expressions that are evaluated from left to right, each of them once. -/
def Scope.evaluateAll (scope : Scope) (sources : List String)
    : Random (List (Except EvalError Value)) :=
  sources.mapM (fun source => (scope.evaluate source).run)

theorem Scope.run_evaluateAll_cons (scope : Scope) (source : String) (rest : List String)
    (draws : Draws)
    : (scope.evaluateAll (source :: rest)).run draws
        = (((scope.evaluate source).outcome draws).1
            :: ((scope.evaluateAll rest).run ((scope.evaluate source).outcome draws).2).1,
          ((scope.evaluateAll rest).run ((scope.evaluate source).outcome draws).2).2) := by
  rw [evaluateAll, List.mapM_cons]
  rfl

theorem Scope.length_evaluateAll (scope : Scope) (sources : List String) (draws : Draws)
    : ((scope.evaluateAll sources).run draws).1.length = sources.length := by
  induction sources generalizing draws with
  | nil => rfl
  | cons source rest ih => rw [run_evaluateAll_cons, List.length_cons, ih, List.length_cons]

/-- More expressions go on with the draws that the first ones leave, by induction on these. -/
theorem Scope.run_evaluateAll_append (scope : Scope) (first second : List String) (draws : Draws)
    : let front := (scope.evaluateAll first).run draws
      let back := (scope.evaluateAll second).run front.2
      (scope.evaluateAll (first ++ second)).run draws = (front.1 ++ back.1, back.2) := by
  induction first generalizing draws with
  | nil => rfl
  | cons source rest ih => simp only [List.cons_append, run_evaluateAll_cons, ih]

namespace Template

/-- What a placeholder becomes: a string as it is, any other value as its markup, and without a
value the placeholder as it was written. -/
def shown (algebra : HostAlgebra) (source : String) : Except EvalError Value → String
  | .ok (.string text) => text
  | .ok value => algebra.markup value
  | .error _ => slotText source

/-- A template with the results of its placeholders in their place. -/
def filled (algebra : HostAlgebra) : Template → List (Except EvalError Value) → List String
  | .literal text :: rest, results => text :: filled algebra rest results
  | .slot slot :: rest, result :: results =>
    shown algebra slot.source result :: filled algebra rest results
  | _, _ => []

/-- The placeholders without a value, each with the reason. -/
def failures : List String → List (Except EvalError Value) → List (String × EvalError)
  | source :: sources, .error error :: results => (source, error) :: failures sources results
  | _ :: sources, .ok _ :: results => failures sources results
  | _, _ => []

/-- Placeholders without a value are counted by their results, by induction on the placeholders. -/
theorem length_failures {sources : List String} {results : List (Except EvalError Value)}
    (h : results.length = sources.length)
    : (failures sources results).length = results.countP (fun result => !result.isOk) := by
  induction sources generalizing results with
  | nil => rw [List.length_eq_zero_iff.mp h]; rfl
  | cons source sources ih =>
      obtain _ | ⟨result, results⟩ := results
      · exact nomatch h
      have counted := ih (Nat.succ.inj h)
      cases result with
      | error fault => rw [failures, List.length_cons, counted, List.countP_cons]; rfl
      | ok value => rw [failures, counted, List.countP_cons]; rfl

/-- The placeholders of two templates fail one after the other, by induction on the first ones. -/
theorem failures_append {sources more : List String} {results later : List (Except EvalError Value)}
    (h : results.length = sources.length)
    : failures (sources ++ more) (results ++ later)
        = failures sources results ++ failures more later := by
  induction sources generalizing results with
  | nil => rw [List.length_eq_zero_iff.mp h]; rfl
  | cons source sources ih =>
      obtain _ | ⟨result, results⟩ := results
      · exact nomatch h
      have rest := ih (Nat.succ.inj h)
      cases result with
      | error fault => exact congrArg (_ :: ·) rest
      | ok value => exact rest

/-- A placeholder is evaluated where it stands, and its result takes its place. -/
theorem run_renderPiece_slot (scope : Scope) (slot : Slot) (draws : Draws)
    : let evaluated := (scope.evaluate slot.source).outcome draws
      (renderPiece scope (.slot slot)).run draws
        = (⟨shown scope.context.algebra slot.source evaluated.1,
              failures [slot.source] [evaluated.1]⟩,
          evaluated.2) := by
  have read : (scope.evalRead slot.expression).run.run draws
      = (scope.evaluate slot.source).outcome draws := by
    rw [slot.expression_eq]
    rfl
  simp only [renderPiece, run_bind, read]
  rcases (scope.evaluate slot.source).outcome draws with ⟨fault | value, rest⟩
  · rfl
  · cases value <;> rfl

theorem run_render_cons (scope : Scope) (piece : Piece) (pieces : Template) (draws : Draws)
    : let first := (renderPiece scope piece).run draws
      let rest := (render scope pieces).run first.2
      (render scope (piece :: pieces)).run draws = (first.1.append rest.1, rest.2) :=
  rfl

/-- Rendering evaluates all placeholders in a row and puts the results in their place, by induction
on the pieces. -/
theorem run_render (scope : Scope) (template : Template) (draws : Draws)
    : let evaluated := (scope.evaluateAll template.sources).run draws
      (render scope template).run draws
        = (⟨String.join (template.filled scope.context.algebra evaluated.1),
              failures template.sources evaluated.1⟩,
          evaluated.2) := by
  induction template generalizing draws with
  | nil => rfl
  | cons piece pieces ih =>
      cases piece with
      | literal text =>
          have same : sources (.literal text :: pieces) = sources pieces := rfl
          have kept : (renderPiece scope (.literal text)).run draws = (⟨text, []⟩, draws) := rfl
          rw [run_render_cons, kept, same]
          simp [ih, Rendered.append, filled]
      | slot slot =>
          have same : sources (.slot slot :: pieces) = slot.source :: sources pieces := rfl
          rw [run_render_cons, run_renderPiece_slot, same, Scope.run_evaluateAll_cons]
          rcases (scope.evaluate slot.source).outcome draws with ⟨fault | value, left⟩
          · simp [ih, Rendered.append, filled, failures]
          · simp [ih, Rendered.append, filled, failures]

/-- Without placeholders there is nothing to fill in, by induction on the pieces. -/
theorem filled_of_sources_eq_nil (algebra : HostAlgebra) {template : Template}
    (h : template.sources = [])
    : template.filled algebra [] = template.map pieceText := by
  induction template with
  | nil => rfl
  | cons piece pieces ih =>
      cases piece with
      | literal text => exact congrArg (text :: ·) (ih h)
      | slot slot => exact nomatch h

theorem run_render_of_sources_eq_nil {text : String} (h : (compile text).sources = [])
    (scope : Scope) (draws : Draws)
    : (render scope (compile text)).run draws = (⟨text, []⟩, draws) := by
  have nothing : (scope.evaluateAll []).run draws = ([], draws) := rfl
  rw [run_render, h, nothing, filled_of_sources_eq_nil _ h, join_compile]
  rfl

/-- Rendering substitutes without loss.
The pieces of a text are the text, character by character. Rendering evaluates the placeholders of
the text from left to right, each of them once, and gives the pieces with the results in place of
the placeholders: a string as it is, another value as its markup, and a placeholder without a value
as it was written, which alone counts as unresolved. A text without a complete placeholder has
nothing to evaluate and comes back as it is.
-/
theorem render_substitutes (scope : Scope) (text : String) (draws : Draws)
    : let template := compile text
      let evaluated := (scope.evaluateAll template.sources).run draws
      String.join (template.map pieceText) = text
      ∧ evaluated.1.length = template.sources.length
      ∧ (render scope template).run draws
        = (⟨String.join (template.filled scope.context.algebra evaluated.1),
              failures template.sources evaluated.1⟩,
          evaluated.2)
      ∧ (failures template.sources evaluated.1).length
        = evaluated.1.countP (fun result => !result.isOk)
      ∧ (¬ HasPlaceholder text.toList → template.sources = [])
      ∧ (template.sources = [] → (render scope template).run draws = (⟨text, []⟩, draws)) := by
  have length := scope.length_evaluateAll (compile text).sources draws
  refine ⟨join_compile text, length, run_render scope _ draws, length_failures length,
    sources_compile_of_not_hasPlaceholder, fun plain => ?_⟩
  exact run_render_of_sources_eq_nil plain scope draws

/-- A scope with a string that is written like a placeholder. -/
def scopeWithTemplate : Scope :=
  ⟨.ofList [("t", .string "@\x7bn\x7d"), ("n", .number (.integer 20))], {}⟩

/-- A string is put in as it is, and what nothing closes is no placeholder. -/
theorem render_substitutes_unclosed
    : ¬ HasPlaceholder "it is @\x7bn".toList
      ∧ (compile "@\x7bn @\x7bt\x7d").sources = []
      ∧ ((render scopeWithTemplate (compile "it is @\x7bn")).run (.ofSeed 0)).1
        = ⟨"it is @\x7bn", []⟩
      ∧ ((render scopeWithTemplate (compile "@\x7bn @\x7bt\x7d")).run (.ofSeed 0)).1
        = ⟨"@\x7bn @\x7bt\x7d", []⟩
      ∧ ((render scopeWithTemplate (compile "@\x7bt\x7d is @\x7bn/8\x7d")).run (.ofSeed 0)).1
        = ⟨"@\x7bn\x7d is \\frac\x7b5\x7d\x7b2\x7d", []⟩ := by
  have unclosed : ¬ HasPlaceholder "it is @\x7bn".toList := by
    rintro ⟨before, source, rest, split, -⟩
    have closed : '}' ∈ "it is @\x7bn".toList := by
      rw [split]
      simp
    exact absurd closed (by decide)
  have sources : (compile "@\x7bn @\x7bt\x7d").sources = [] := by decide +kernel
  obtain ⟨_, _, _, _, none, kept⟩ :=
    render_substitutes scopeWithTemplate "it is @\x7bn" (.ofSeed 0)
  obtain ⟨_, _, _, _, _, kept'⟩ :=
    render_substitutes scopeWithTemplate "@\x7bn @\x7bt\x7d" (.ofSeed 0)
  obtain ⟨_, _, filled, _, _, _⟩ :=
    render_substitutes scopeWithTemplate "@\x7bt\x7d is @\x7bn/8\x7d" (.ofSeed 0)
  refine ⟨unclosed, sources, congrArg Prod.fst (kept (none unclosed)),
    congrArg Prod.fst (kept' sources), ?_⟩
  rw [filled]
  decide +kernel

end Template

end QuizVariants
