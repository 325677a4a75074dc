import QuizVariants.Proofs.Expr.Parsing
import QuizVariants.Proofs.Script.Statements
import QuizVariants.Proofs.Text.Affixes

/-! Assignments as a script may write them.
Between the statements of a script stand semicolons and the ends of lines, and blanks may stand
around all parts of a statement. A name may have a dollar and the word that declares it in front of
it, and that word may be a name itself.
-/

namespace QuizVariants.Script

open QuizVariants.Text
open QuizVariants.Literal (isQuote)
open QuizVariants.Parser (IsGap)

/-- Blanks within a line. -/
structure Gap where
  text : List Char
  blank : ∀ c ∈ text, isBlank c = true
  line : '\n' ∉ text

/-- An expression as it is written in a script and without its sigils: it shows something up to its
end, and does not start with an equals sign. -/
structure Expression where
  text : List Char
  plain : List Char
  written : WithoutSigils text plain
  shows : ∃ c ∈ text.getLast?, isBlank c = false
  single : text.head? ≠ some '='

/-- An assignment of an expression to a name, which may have a dollar in front of it and, before
that, the word that declares it. Spaces may stand around the equals sign, and all other blanks in
front of it. -/
structure Assignment where
  declaration : Option { gap : Gap // gap.text ≠ [] }
  dollar : Bool
  name : List Char
  named : isName name = true
  between : Gap
  space : { gap : Gap // IsGap gap.text }
  expression : Expression

namespace Assignment

/-- The name with a dollar or without. -/
def target (assignment : Assignment) : List Char :=
  if assignment.dollar then '$' :: assignment.name else assignment.name

/-- What stands behind the equals sign. -/
def behindEquals (assignment : Assignment) : List Char :=
  assignment.space.1.text ++ assignment.expression.text

/-- What stands behind the declaration. -/
def binding (assignment : Assignment) : List Char :=
  assignment.target ++ (assignment.between.text ++ '=' :: assignment.behindEquals)

def text (assignment : Assignment) : List Char :=
  match assignment.declaration with
  | none => assignment.binding
  | some gap => 'm' :: 'y' :: (gap.1.text ++ assignment.binding)

end Assignment

/-- What stands between two separators: nothing but blanks, or an assignment between blanks. -/
inductive Entry where
  | blank (gap : Gap)
  | assignment (before : Gap) (assignment : Assignment) (behind : Gap)

namespace Entry

def text : Entry → List Char
  | .blank gap => gap.text
  | .assignment before written behind => before.text ++ (written.text ++ behind.text)

def assignment? : Entry → Option Assignment
  | .blank _ => none
  | .assignment _ written _ => some written

end Entry

/-- A line of entries with semicolons in between. -/
def lineOf (entries : List Entry) : List Char :=
  joinWith [';'] (entries.map Entry.text)

-----------------------------------------------------------------------------------------
-- Blanks
-----------------------------------------------------------------------------------------

/-- Characters of a kind without quotation marks and semicolons divide nothing. -/
theorem undivided_of_kind {kind : Char → Bool} {text : List Char}
    (all : ∀ c ∈ text, kind c = true) (double : kind '"' = false) (single : kind '\'' = false)
    (semicolon : kind ';' = false)
    : Undivided text := by
  refine undivided_of_plain (fun c member => ⟨?_, ne_of_kind (all c member) semicolon⟩)
  simp [isQuote, ne_of_kind (all c member) double, ne_of_kind (all c member) single]

theorem Gap.undivided (gap : Gap) : Undivided gap.text :=
  undivided_of_kind gap.blank rfl rfl rfl

/-- A blank is no character of a name. -/
theorem continuesName_of_isBlank {c : Char} (blank : isBlank c = true)
    : continuesName c = false := by
  refine Bool.eq_false_iff.mpr (fun continues => ?_)
  have shows := isBlank_of_isBare (isBare_of_continuesName continues)
  exact Bool.noConfusion (shows.symm.trans blank)

theorem trimLeft_gap (gap : Gap) {text : List Char} {c : Char} (first : text.head? = some c)
    (shows : isBlank c = false)
    : trimLeft (gap.text ++ text) = text := by
  cases text with
  | nil => exact nomatch first
  | cons d text =>
      obtain rfl := Option.some.inj first
      rw [trimLeft, List.dropWhile_append_of_pos gap.blank]
      exact trimLeft_cons_of_not_isBlank shows

/-- Blanks in front of a text stay where sigils are left out, by induction on them. -/
theorem WithoutSigils.behind_gap (gap : Gap) {text plain : List Char}
    (written : WithoutSigils text plain)
    : WithoutSigils (gap.text ++ text) (gap.text ++ plain) := by
  obtain ⟨blanks, blank, line⟩ := gap
  induction blanks with
  | nil => exact written
  | cons c blanks ih =>
      obtain ⟨first, others⟩ := List.forall_mem_cons.mp blank
      obtain ⟨apart, inside⟩ := not_or.mp (mt List.mem_cons.mpr line)
      have unquoted : isQuote c = false := by
        simp [isQuote, ne_of_kind first (show isBlank '\'' = false from rfl),
          ne_of_kind first (show isBlank '"' = false from rfl)]
      exact .other unquoted (ne_of_kind first rfl) (Ne.symm apart)
        (fun dollar => absurd dollar (ne_of_kind first rfl)) (ih others inside)

/-- A character of a name is no sigil. -/
theorem WithoutSigils.letter {c : Char} (continues : continuesName c = true)
    {text plain : List Char} (more : WithoutSigils text plain)
    : WithoutSigils (c :: text) (c :: plain) := by
  have apart (other : Char) (h : continuesName other = false) : c ≠ other :=
    ne_of_kind continues h
  refine .other ?_ (apart ';' rfl) (apart '\n' rfl)
    (fun dollar => absurd dollar (apart '$' rfl)) more
  simp [isQuote, apart '\'' rfl, apart '"' rfl]

theorem trim_gap (gap : Gap) : trim gap.text = [] := by
  have none : trimLeft gap.text = [] := List.dropWhile_eq_nil_iff.mpr gap.blank
  rw [trim, none]
  rfl

/-- Blanks around a trimmed text do not count. -/
theorem trim_between_gaps (before behind : Gap) {text : List Char} (trimmed : Trimmed text)
    (some : text ≠ [])
    : trim (before.text ++ (text ++ behind.text)) = text := by
  obtain ⟨c, rest, rfl⟩ := List.exists_cons_of_ne_nil some
  have shows : isBlank c = false := (trimmed_iff.mp trimmed).1 c rfl
  have right : trimRight (c :: rest ++ behind.text) = trimRight (c :: rest) := by
    rw [trimRight, List.reverse_append, List.dropWhile_append_of_pos]
    · rfl
    · exact fun c member => behind.blank c (List.mem_reverse.mp member)
  rw [trim, trimLeft_gap before rfl shows, right, trimmed.trimRight_eq]

-----------------------------------------------------------------------------------------
-- Texts of assignments
-----------------------------------------------------------------------------------------

namespace Assignment

/-- A name starts with a character that shows. -/
theorem exists_name_first (assignment : Assignment)
    : ∃ c rest, assignment.name = c :: rest ∧ startsName c = true := by
  have named := assignment.named
  cases name : assignment.name with
  | nil =>
      rw [name] at named
      exact nomatch named
  | cons c rest =>
      rw [name] at named
      exact ⟨c, rest, rfl, (Bool.and_eq_true_iff.mp named).1⟩

theorem isBlank_of_startsName {c : Char} (starts : startsName c = true) : isBlank c = false :=
  isBlank_of_isBare (isBare_of_continuesName (by rw [continuesName, starts, Bool.true_or]))

theorem written_behindEquals (assignment : Assignment)
    : WithoutSigils assignment.behindEquals
        (assignment.space.1.text ++ assignment.expression.plain) :=
  assignment.expression.written.behind_gap assignment.space.1

theorem undivided_binding (assignment : Assignment) : Undivided assignment.binding := by
  have name : Undivided assignment.name :=
    undivided_of_kind (continuesName_of_isName assignment.named) rfl rfl rfl
  have single (c : Char) (h : isQuote c = false ∧ c ≠ ';') : Undivided [c] :=
    undivided_of_plain (List.forall_mem_singleton.mpr h)
  have target : Undivided assignment.target := by
    rw [target]
    split
    · exact (single '$' (by decide)).append name
    · exact name
  exact target.append (assignment.between.undivided.append
    ((single '=' (by decide)).append assignment.written_behindEquals.undivided))

theorem undivided_text (assignment : Assignment) : Undivided assignment.text := by
  rw [text]
  split
  · exact assignment.undivided_binding
  · next gap _ =>
    have word : Undivided ['m', 'y'] := undivided_of_plain (by simp [isQuote])
    exact word.append (gap.1.undivided.append assignment.undivided_binding)

/-- No line ends in an assignment. -/
theorem oneLine_text (assignment : Assignment) : '\n' ∉ assignment.text := by
  have name : '\n' ∉ assignment.name := fun member =>
    absurd (continuesName_of_isName assignment.named '\n' member) (by decide)
  have target : '\n' ∉ assignment.target := by
    rw [target]
    split
    · exact List.not_mem_cons_of_ne_of_not_mem (by decide) name
    · exact name
  have binding : '\n' ∉ assignment.binding := by
    simp [Assignment.binding, target, assignment.between.line,
      assignment.written_behindEquals.oneLine]
  rw [text]
  split
  · exact binding
  · next gap _ => simp [gap.1.line, binding]

/-- An assignment ends where its expression ends. -/
theorem getLast?_text (assignment : Assignment)
    : assignment.text.getLast? = assignment.expression.text.getLast? := by
  obtain ⟨c, last, -⟩ := assignment.expression.shows
  have some : assignment.expression.text.getLast? = some c := last
  have binding : assignment.binding.getLast? = assignment.expression.text.getLast? := by
    simp [Assignment.binding, behindEquals, List.getLast?_append, List.getLast?_cons, some]
  rw [text]
  split
  · exact binding
  · simp [List.getLast?_cons, List.getLast?_append, binding, some]

theorem exists_binding_first (assignment : Assignment)
    : ∃ c rest, assignment.binding = c :: rest ∧ isBlank c = false := by
  obtain ⟨c, rest, name, starts⟩ := assignment.exists_name_first
  rw [binding, target]
  split
  · exact ⟨'$', _, rfl, rfl⟩
  · exact ⟨c, _, by rw [name, List.cons_append], isBlank_of_startsName starts⟩

theorem exists_text_first (assignment : Assignment)
    : ∃ c rest, assignment.text = c :: rest ∧ isBlank c = false := by
  rw [text]
  split
  · exact assignment.exists_binding_first
  · exact ⟨'m', _, rfl, rfl⟩

theorem trimmed_text (assignment : Assignment) : Trimmed assignment.text := by
  refine trimmed_iff.mpr ⟨fun c first => ?_, fun c last => ?_⟩
  · obtain ⟨d, rest, text, shows⟩ := assignment.exists_text_first
    rw [text] at first
    exact Option.some.inj first ▸ shows
  · obtain ⟨d, ending, shows⟩ := assignment.expression.shows
    rw [getLast?_text] at last
    exact Option.some.inj (ending.symm.trans last) ▸ shows

theorem text_ne_nil (assignment : Assignment) : assignment.text ≠ [] := by
  obtain ⟨c, rest, text, -⟩ := assignment.exists_text_first
  rw [text]
  exact List.cons_ne_nil c rest

-----------------------------------------------------------------------------------------
-- The reading of assignments
-----------------------------------------------------------------------------------------

/-- What stands behind the name. -/
def behindName (assignment : Assignment) : List Char :=
  assignment.between.text ++ '=' :: assignment.behindEquals

/-- A name ends at a blank or at the equals sign. -/
theorem stops_behindName (assignment : Assignment) : Stops continuesName assignment.behindName := by
  intro c first
  rw [behindName] at first
  cases between : assignment.between.text with
  | nil =>
      rw [between] at first
      obtain rfl : '=' = c := Option.some.inj first
      rfl
  | cons d rest =>
      rw [between] at first
      obtain rfl : d = c := Option.some.inj first
      exact continuesName_of_isBlank (assignment.between.blank d (between ▸ List.mem_cons_self))

theorem trimLeft_behindName (assignment : Assignment)
    : trimLeft assignment.behindName = '=' :: assignment.behindEquals :=
  trimLeft_gap assignment.between rfl rfl

/-- A dollar in front of a name is taken off, and nothing else is one. -/
theorem after?_dollar_binding (assignment : Assignment)
    : (after? ['$'] assignment.binding).getD assignment.binding
        = assignment.name ++ assignment.behindName := by
  rw [binding, ← behindName, target]
  split
  · rw [List.cons_append, after?_singleton, Option.getD_some]
  · obtain ⟨c, rest, name, starts⟩ := assignment.exists_name_first
    have other : (assignment.name ++ assignment.behindName).head? ≠ some '$' := by
      rw [name]
      have apart : c ≠ '$' := ne_of_kind starts rfl
      exact fun first => apart (Option.some.inj first)
    rw [after?_eq_none other, Option.getD_none]

/-- Behind an equals sign something else follows than a second one. -/
theorem exists_behindEquals_first (assignment : Assignment)
    : ∃ c rest, assignment.behindEquals = c :: rest ∧ c ≠ '=' := by
  have single := assignment.expression.single
  cases spaces : assignment.space.1.text with
  | cons c rest =>
      have blank := assignment.space.1.blank c (spaces ▸ List.mem_cons_self)
      exact ⟨c, rest ++ assignment.expression.text, by rw [behindEquals, spaces, List.cons_append],
        ne_of_kind blank rfl⟩
  | nil =>
      obtain ⟨last, ending, -⟩ := assignment.expression.shows
      cases text : assignment.expression.text with
      | nil =>
          rw [text] at ending
          exact nomatch ending
      | cons c rest =>
          rw [text] at single
          exact ⟨c, rest, by rw [behindEquals, spaces, text, List.nil_append],
            fun same => single (congrArg some same)⟩

/-- A name, an equals sign and an expression are read, with a dollar in front or without. -/
theorem binding?_binding (assignment : Assignment)
    : binding? assignment.binding = some (assignment.name, assignment.behindEquals) := by
  have name := name?_append assignment.named assignment.stops_behindName
  have equals := after?_singleton '=' assignment.behindEquals
  obtain ⟨c, rest, behind, other⟩ := assignment.exists_behindEquals_first
  rw [behind] at equals
  simp only [binding?, after?_dollar_binding, name, trimLeft_behindName, behind, equals,
    Option.bind_eq_bind, Option.bind_some, if_neg other]

/-- An equals sign is no binding without a name. -/
theorem binding?_equals (text : List Char) : binding? ('=' :: text) = none :=
  rfl

/-- The word that declares a name is a name as well. -/
theorem continuesName_declaration : ∀ c ∈ ['m', 'y'], continuesName c = true :=
  continuesName_of_isName rfl

/-- Where a name is taken for the word that declares one, no binding is left. -/
theorem skipDeclaration_binding (assignment : Assignment)
    : skipDeclaration assignment.binding = assignment.binding
      ∨ binding? (skipDeclaration assignment.binding) = none := by
  unfold skipDeclaration
  split
  · next c rest found =>
    split
    · next blank =>
      refine Or.inr ?_
      have text : assignment.binding = ['m', 'y'] ++ c :: rest := after?_eq_some_iff.mp found
      have dollarless : assignment.binding = assignment.name ++ assignment.behindName := by
        rw [← after?_dollar_binding, after?_eq_none, Option.getD_none]
        rw [text]
        exact fun first => nomatch first
      -- The name is the word, since a blank follows both.
      have stops : Stops continuesName (c :: rest) :=
        stops_cons.mpr (continuesName_of_isBlank blank)
      have same := dollarless.symm.trans text
      have behind : assignment.behindName = c :: rest := by
        rw [← dropWhile_append_of_stops (continuesName_of_isName assignment.named)
          assignment.stops_behindName, same]
        exact dropWhile_append_of_stops continuesName_declaration stops
      have trimmed := assignment.trimLeft_behindName
      rw [behind, trimLeft_cons_of_isBlank blank] at trimmed
      rw [trimmed, binding?_equals]
    · exact Or.inl rfl
  · exact Or.inl rfl

/-- An assignment is read as the name and the expression without sigils, however it is written. -/
theorem assignment?_text (assignment : Assignment)
    : assignment? assignment.text
        = some (.ofList assignment.name,
            .ofList (assignment.space.1.text ++ assignment.expression.plain)) := by
  have read : (binding? (skipDeclaration assignment.text) <|> binding? assignment.text)
      = some (assignment.name, assignment.behindEquals) := by
    rw [text]
    split
    · rcases assignment.skipDeclaration_binding with same | none
      · rw [same, binding?_binding]
        rfl
      · rw [none, binding?_binding]
        rfl
    · next gap _ =>
      obtain ⟨c, rest, gap'⟩ := List.exists_cons_of_ne_nil gap.2
      have blank : isBlank c = true := gap.1.blank c (gap' ▸ List.mem_cons_self)
      have first : trimLeft (gap.1.text ++ assignment.binding) = assignment.binding := by
        obtain ⟨d, more, binding, shows⟩ := assignment.exists_binding_first
        exact trimLeft_gap gap.1 (congrArg List.head? binding) shows
      have skipped : skipDeclaration ('m' :: 'y' :: (gap.1.text ++ assignment.binding))
          = assignment.binding := by
        have word : after? ['m', 'y'] ('m' :: 'y' :: (gap.1.text ++ assignment.binding))
            = some (gap.1.text ++ assignment.binding) :=
          after?_eq_some_iff.mpr rfl
        rw [gap', List.cons_append, trimLeft_cons_of_isBlank blank] at first
        rw [skipDeclaration, word, gap', List.cons_append]
        simp only [blank, if_true, first]
      rw [skipped, binding?_binding]
      rfl
  rw [assignment?, read]
  simp [assignment.written_behindEquals.stripDollars_eq]

end Assignment

end QuizVariants.Script
