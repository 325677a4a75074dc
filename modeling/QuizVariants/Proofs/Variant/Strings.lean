import QuizVariants.Proofs.Expr.Completeness
import QuizVariants.Proofs.Expr.Variables
import QuizVariants.Proofs.Literal.RoundTrip
import QuizVariants.Proofs.Variant.Parameters

/-! Lists of strings as parameters.
A list is written in its source form before its text is read as an expression. The two ways to
write a string share the escapes of backslashes and quotes; a source escapes newlines and tabs as
well, and an expression keeps those escapes as they stand.
-/

namespace QuizVariants

open QuizVariants.Text
open QuizVariants.Parser

namespace Literal

/-- What a character of a string is after it was written in a source form and read as part of an
expression. -/
def rewrittenChar (c : Char) : List Char :=
  if c = '\n' then ['\\', 'n'] else if c = '\t' then ['\\', 't'] else [c]

/-- What a string is after it was written in a source form and read as an expression. -/
def rewritten (text : String) : String :=
  .ofList (text.toList.flatMap rewrittenChar)

/-- Only texts without newlines and tabs are read again as they were, by induction on the text. -/
theorem flatMap_rewrittenChar_eq_iff (text : List Char)
    : text.flatMap rewrittenChar = text ↔ '\n' ∉ text ∧ '\t' ∉ text := by
  induction text with
  | nil => simp
  | cons c text ih =>
      rw [List.flatMap_cons, List.mem_cons, List.mem_cons, rewrittenChar]
      split
      · subst c
        simp
      · next line =>
        split
        · subst c
          simp
        · next tab =>
          simp [ih, Ne.symm line, Ne.symm tab]

theorem rewritten_eq_iff (text : String)
    : rewritten text = text ↔ '\n' ∉ text.toList ∧ '\t' ∉ text.toList := by
  rw [← flatMap_rewrittenChar_eq_iff, ← String.toList_inj, rewritten, String.toList_ofList]

-----------------------------------------------------------------------------------------
-- The source form of a list of strings is an expression
-----------------------------------------------------------------------------------------

open QuizVariants.Expr (Nesting Phrase Quotes Spells)

theorem source_strings (texts : List String)
    : (source (.list (texts.map .quoted))).toList
        = '[' :: joinWith [',', ' '] (texts.map fun text => quote text.toList) ++ [']'] := by
  have parts : (texts.map Literal.quoted).map (fun item => item.source.toList)
      = texts.map fun text => quote text.toList := by
    simp [source]
  rw [source_list, parts]

/-- What a source writes between quotes is the content of a string of expressions, by induction on
the text. -/
theorem quotes_escaped (text : List Char)
    : Quotes '"' (text.flatMap rewrittenChar) (text.flatMap escapeChar) := by
  induction text with
  | nil => exact .nil
  | cons c text ih =>
      rw [List.flatMap_cons, List.flatMap_cons]
      by_cases slash : c = '\\'
      · subst slash
        exact .escaped (.inl rfl) ih
      by_cases mark : c = '"'
      · subst mark
        exact .escaped (.inr (.inr rfl)) ih
      by_cases line : c = '\n'
      · subst line
        exact .kept (by decide) ih
      by_cases tab : c = '\t'
      · subst tab
        exact .kept (by decide) ih
      rw [rewrittenChar, if_neg line, if_neg tab, escapeChar, if_neg slash, if_neg mark,
        if_neg line, if_neg tab]
      exact .plain ⟨mark, slash⟩ ih

theorem isGap_nil : IsGap [] := by
  simp [IsGap]

/-- A string in its source form is an operand, with or without a gap in front of it. -/
theorem spells_quote (text : String) {before : List Char} (gap : IsGap before)
    : Spells (.expression .comparison (.string (rewritten text)))
        (before ++ quote text.toList) := by
  have string : Spells (.expression .atom (.string (rewritten text))) (quote text.toList) :=
    .string (.inr rfl) (quotes_escaped text.toList)
  have spaced := Spells.spaced gap isGap_nil string
  rw [List.append_nil] at spaced
  exact spaced.atomic

/-- The tree of a list of strings after its source form is read. -/
def rewrittenList (texts : List String) : Expr :=
  .list (texts.map fun text => .string (rewritten text))

/-- Strings with a comma and a blank between them are items, by induction on those behind the first
one; each of them may have a gap in front of it. -/
theorem spells_items (first : String) (others : List String) {before : List Char}
    (gap : IsGap before)
    : Spells (.items ((first :: others).map fun text => .string (rewritten text)))
        (before ++ joinWith [',', ' '] ((first :: others).map fun text => quote text.toList)) := by
  induction others generalizing first before with
  | nil => exact .item (spells_quote first gap)
  | cons next others ih =>
      have blank : IsGap [' '] := by simp [IsGap, isSpace]
      have whole := Spells.moreItems (spells_quote first gap) (ih next blank)
      simpa [joinWith] using whole

theorem spells_source (texts : List String)
    : Spells (.expression .atom (rewrittenList texts))
        (source (.list (texts.map .quoted))).toList := by
  rw [source_strings]
  have inside : Spells (.contents (texts.map fun text => .string (rewritten text)) false)
      (joinWith [',', ' '] (texts.map fun text => quote text.toList)) := by
    cases texts with
    | nil => exact .nothing isGap_nil
    | cons first others => exact .contents (spells_items first others isGap_nil)
  exact .list inside

-----------------------------------------------------------------------------------------
-- The source form of a list of strings is flat
-----------------------------------------------------------------------------------------

/-- What is counted inside the brackets of a list and outside of strings. -/
def listed (previous : Char) : Nesting :=
  ⟨1, 0, 0, 1, none, false, previous⟩

/-- A string counts nothing up to its closing mark, by induction on the text. -/
theorem foldl_step_quoteTail (text : List Char) (previous : Char)
    : (quoteTail text).foldl Nesting.step ⟨1, 0, 0, 1, some '"', false, previous⟩
        = listed previous := by
  induction text with
  | nil => rfl
  | cons c text ih =>
      rw [quoteTail_cons, List.foldl_append]
      rcases escapeChar_cases c with ⟨same, slash, mark, _⟩ | ⟨d, escaped, _⟩
      · rw [same]
        simpa [Nesting.step, Nesting.stepInside, slash, mark] using ih
      · rw [escaped]
        simpa [Nesting.step, Nesting.stepInside] using ih

theorem foldl_step_quote (text : List Char) (previous : Char)
    : (quote text).foldl Nesting.step (listed previous) = listed '"' :=
  foldl_step_quoteTail text '"'

/-- Strings between brackets leave what is counted as it is, by induction on them. -/
theorem foldl_step_joined (texts : List String) (previous : Char)
    : ∃ last,
        (joinWith [',', ' '] (texts.map fun text => quote text.toList)).foldl Nesting.step
            (listed previous)
          = listed last := by
  induction texts generalizing previous with
  | nil => exact ⟨previous, rfl⟩
  | cons first others ih =>
      cases others with
      | nil => exact ⟨'"', foldl_step_quote first.toList previous⟩
      | cons next others =>
          obtain ⟨last, counted⟩ := ih ' '
          refine ⟨last, ?_⟩
          rw [List.map_cons, List.map_cons, joinWith, List.foldl_append, List.foldl_append,
            foldl_step_quote]
          · exact counted
          · exact List.cons_ne_nil _ _

theorem nestingDepth_source (texts : List String)
    : Expr.nestingDepth (source (.list (texts.map .quoted))).toList ≤ Expr.maxNesting := by
  obtain ⟨last, counted⟩ := foldl_step_joined texts '['
  have opened : Nesting.step .start '[' = listed '[' := rfl
  rw [source_strings, Expr.nestingDepth, List.cons_append, List.foldl_cons, opened,
    List.foldl_append, counted]
  exact (by decide : 1 ≤ Expr.maxNesting)

/-- The expression of a list of strings is the list of these strings read again. -/
theorem parse_expression_strings (texts : List String)
    : Expr.parse (expression (.list (texts.map .quoted))) = .ok (rewrittenList texts) :=
  Expr.parseChars_spelled (spells_source texts).atomic (nestingDepth_source texts)

end Literal

-----------------------------------------------------------------------------------------
-- Values
-----------------------------------------------------------------------------------------

open QuizVariants.Literal (rewritten rewrittenList)
open QuizVariants.Plan

namespace Expr

/-- Strings are evaluated to themselves, by induction on them. -/
theorem evalItems_strings (scope : Scope) (texts : List String)
    : evalItems scope (texts.map .string) = pure (texts.map .string) := by
  induction texts with
  | nil => rfl
  | cons text texts ih => simp [evalItems, eval, ih]

theorem eval_rewrittenList (scope : Scope) (texts : List String)
    : (rewrittenList texts).eval scope
        = pure (.list (texts.map fun text => .string (rewritten text))) := by
  have items := evalItems_strings scope (texts.map rewritten)
  rw [List.map_map, List.map_map] at items
  rw [rewrittenList, eval]
  exact congrArg (fun action => action >>= fun values => pure (Value.list values)) items

theorem freeNames_rewrittenList (texts : List String) : (rewrittenList texts).freeNames = [] := by
  refine List.eq_nil_iff_forall_not_mem.mpr fun name free => ?_
  obtain ⟨item, member, inside⟩ := mem_mentionedItems.mp (mem_freeNames.mp free)
  obtain ⟨text, _, rfl⟩ := List.mem_map.mp member
  exact nomatch inside

end Expr

namespace Definition

/-- A parameter declared as a list of strings has these strings as its value, but for the newlines
and tabs in them. -/
theorem get?_values_strings {definition : Definition} (ordered : definition.isScripted = false)
    (context : Context) (draws : Draws) {name : String} {texts : List String}
    (declared : definition.parameters.get? name = some (.list (texts.map .quoted)))
    : ((definition.instantiate context).run draws).1.values.get? name
        = some (.list (texts.map fun text => .string (rewritten text))) := by
  obtain ⟨scope, _, result, _, ran, value⟩ := outcome_of_closed ordered context draws declared
    (Literal.parse_expression_strings texts) (Expr.freeNames_rewrittenList texts)
  rw [Expr.eval_rewrittenList scope texts] at ran
  obtain rfl : .ok _ = result := congrArg Prod.fst ran
  exact value

/-- What becomes of a list of strings.
Whatever else a definition without a script declares, and whatever the context and the draws, each
string of a declared list comes back as it was but for its newlines and tabs, which come back as a
backslash and a letter. So the list comes back as it was declared exactly when there are none.
-/
theorem instantiate_keepsStrings_iff {definition : Definition}
    (ordered : definition.isScripted = false) (context : Context) (draws : Draws) {name : String}
    {texts : List String}
    (declared : definition.parameters.get? name = some (.list (texts.map .quoted)))
    : let values := ((definition.instantiate context).run draws).1.values
      values.get? name = some (.list (texts.map fun text => .string (rewritten text)))
      ∧ (values.get? name = some (.list (texts.map .string))
        ↔ ∀ text ∈ texts, '\n' ∉ text.toList ∧ '\t' ∉ text.toList) := by
  intro values
  have found : values.get? name = some (.list (texts.map fun text => .string (rewritten text))) :=
    get?_values_strings ordered context draws declared
  refine ⟨found, ?_⟩
  rw [found, Option.some_inj, Value.list.injEq, List.map_inj_left]
  simp only [Value.string.injEq, Literal.rewritten_eq_iff]

/-- A list of strings with marks and backslashes in them, behind another parameter. -/
def withMarks : Definition :=
  { parameters := .ofList
      [("n", .integer ⟨2, by decide⟩), ("xs", .list [.quoted "\\frac", .quoted "a\"b'"])] }

/-- Backslashes, marks and letters behind a backslash come back as they were. -/
theorem withMarks_keepsStrings
    : withMarks.isScripted = false
      ∧ withMarks.parameters.get? "xs" = some (.list (["\\frac", "a\"b'"].map .quoted))
      ∧ ((withMarks.instantiate {}).run (.ofSeed 0)).1.values.get? "xs"
        = some (.list [.string "\\frac", .string "a\"b'"]) := by
  have ordered : withMarks.isScripted = false := rfl
  have declared
      : withMarks.parameters.get? "xs" = some (.list (["\\frac", "a\"b'"].map .quoted)) := rfl
  exact ⟨ordered, declared,
    (instantiate_keepsStrings_iff ordered {} (.ofSeed 0) declared).2.mpr (by decide)⟩

/-- A list with a string of two lines. -/
def withTwoLines : Definition :=
  { parameters := .ofList [("xs", .list [.quoted "a\nb"])] }

/-- The newline of a string in a list comes back as a backslash and a letter. -/
theorem withTwoLines_changesString
    : withTwoLines.isScripted = false
      ∧ withTwoLines.parameters.get? "xs" = some (.list (["a\nb"].map .quoted))
      ∧ let values := ((withTwoLines.instantiate {}).run (.ofSeed 0)).1.values
        values.get? "xs" = some (.list [.string "a\\nb"])
        ∧ values.get? "xs" ≠ some (.list (["a\nb"].map .string)) := by
  have ordered : withTwoLines.isScripted = false := rfl
  have declared : withTwoLines.parameters.get? "xs" = some (.list (["a\nb"].map .quoted)) := rfl
  have found : ((withTwoLines.instantiate {}).run (.ofSeed 0)).1.values.get? "xs"
      = some (.list [.string "a\\nb"]) :=
    get?_values_strings ordered {} (.ofSeed 0) declared
  refine ⟨ordered, declared, found, ?_⟩
  rw [found]
  simp

end Definition

end QuizVariants
