import QuizVariants.Proofs.Except
import QuizVariants.Proofs.Template.Rendering
import QuizVariants.Proofs.Variant.Parameters

/-! Absence.
A parameter that reads an absent one is absent as well, and so is a placeholder, as long as the
host offers nothing under the absent name. A value or a free symbol of the host under that name
takes the place of the missing value.
-/

namespace QuizVariants

open QuizVariants.Plan
open QuizVariants.Random
open QuizVariants.Template (Rendered KeepsAll)

/-- Absence of a parameter spreads: later parameters that read it are absent, and placeholders that
read it stay as they were written and are counted.
-/
structure Definition.Propagates (definition : Definition) (name : String)
    (instantiation : Instantiation) : Prop where
  parameters : ∀ before literal between other otherLiteral after e,
    definition.parameters.entries
        = before ++ (name, literal) :: between ++ (other, otherLiteral) :: after
    → Expr.parse otherLiteral.expression = .ok e
    → name ∈ e.freeNames
    → other ∈ instantiation.absent
  placeholders : ∃ statement solution choices answer,
    KeepsAll name (Template.compile definition.statement) statement
    ∧ KeepsAll name (Template.compile definition.solution) solution
    ∧ List.Forall₂ (KeepsAll name) (definition.choices.map Template.compile) choices
    ∧ (definition.choices = [] → KeepsAll name (Template.compile definition.answer) answer)
    ∧ instantiation.variant.statement = statement.text
    ∧ instantiation.variant.solution = solution.text
    ∧ instantiation.variant.choices = choices.map Rendered.text
    ∧ instantiation.variant.answer = answer.text
    ∧ instantiation.unresolved
      = ((statement :: solution :: choices ++ [answer]).flatMap Rendered.unresolved).length

-----------------------------------------------------------------------------------------
-- Without an offer of the host absence spreads
-----------------------------------------------------------------------------------------

/-- What the host alone offers under a name. -/
def Context.offer? (context : Context) (name : String) : Option Value :=
  Scope.value? ⟨.empty, context⟩ name

/-- Where a name is not bound, its value is the one that the host offers. -/
theorem Scope.value?_of_unbound {locals : Table Value} {context : Context} {name : String}
    (unbound : name ∉ locals.names)
    : Scope.value? ⟨locals, context⟩ name = context.offer? name := by
  rw [Context.offer?, Scope.value?, Table.get?_eq_none_iff.mpr unbound]
  rfl

/-- Rendered choices keep all placeholders that read an unbound name, by induction on them. -/
theorem Plan.keepsAll_renderChoices {scope : Scope} {name : String}
    (unbound : Expr.IsVariable name → scope.value? name = none) (templates : List Template)
    (draws : Draws)
    : List.Forall₂ (KeepsAll name) templates ((renderChoices scope templates).run draws).1 := by
  induction templates generalizing draws with
  | nil => exact .nil
  | cons template rest ih =>
      exact .cons (Template.keepsAll_render unbound template draws)
        (ih ((Template.render scope template).run draws).2)

/-- Without choices the answer is rendered like any other template. -/
theorem Plan.keepsAll_renderAnswer {scope : Scope} {name : String}
    (unbound : Expr.IsVariable name → scope.value? name = none) (answer : Template)
    {templates : List Template} (noChoices : templates = []) (draws rest : Draws)
    : KeepsAll name answer
        ((renderAnswer scope answer ((renderChoices scope templates).run draws).1).run rest).1 := by
  subst noChoices
  exact Template.keepsAll_render unbound answer rest

namespace Definition

/-- An absent parameter has no value; witness: values and absent names do not overlap. -/
theorem not_mem_names_of_absent {definition : Definition}
    (ordered : definition.isScripted = false) {context : Context} {draws : Draws} {name : String}
    (absent : name ∈ ((definition.instantiate context).run draws).1.absent)
    : name ∉ ((definition.instantiate context).run draws).1.values.names := by
  intro valued
  exact ((mem_names_instantiate ordered).mp valued).2 absent

/-- The script is no parameter of a definition without one. -/
theorem ne_scriptKey_of_absent {definition : Definition}
    (ordered : definition.isScripted = false) {context : Context} {draws : Draws} {name : String}
    (absent : name ∈ ((definition.instantiate context).run draws).1.absent)
    : name ≠ Section.scriptKey := by
  rintro rfl
  have declared := (instantiate_partitions ordered context draws).1.subset absent
  exact Table.get?_eq_none_iff.mp (get?_scriptKey ordered) declared

/-- An absent parameter has no value where a later one is evaluated, either. -/
theorem not_mem_earlier_of_absent {definition : Definition}
    (ordered : definition.isScripted = false) {context : Context} {draws : Draws} {name : String}
    (absent : name ∈ ((definition.instantiate context).run draws).1.absent)
    {earlier : Table Value} {keep : String × Value → Bool}
    (entries
      : earlier.entries
        = ((definition.instantiate context).run draws).1.values.entries.filter keep)
    : name ∉ earlier.names := by
  intro bound
  rw [Table.names, entries] at bound
  apply not_mem_names_of_absent ordered absent
  exact (List.filter_sublist.map Prod.fst).subset bound

/-- A parameter that reads an earlier absent one is absent: where it is evaluated the host is asked
for that name, and offers nothing.
-/
theorem absent_of_reads_absent {definition : Definition}
    (ordered : definition.isScripted = false) {context : Context} {draws : Draws} {name : String}
    (absent : name ∈ ((definition.instantiate context).run draws).1.absent)
    (offered : Expr.IsVariable name → context.offer? name = none)
    {before after : List (String × Literal)} {other : String} {literal : Literal} {e : Expr}
    (split : definition.parameters.entries = before ++ (other, literal) :: after)
    (parsed : Expr.parse literal.expression = .ok e) (free : name ∈ e.freeNames)
    : other ∈ ((definition.instantiate context).run draws).1.absent := by
  obtain ⟨earlier, result, entries, ran, _, missing⟩ :=
    outcome_of_split ordered context draws split
  refine missing.mpr ?_
  cases result with
  | error error => exact ⟨error, rfl⟩
  | ok value =>
      have unbound : name ∉ earlier.names := not_mem_earlier_of_absent ordered absent entries
      obtain ⟨error, rest, failed⟩ := Expr.eval_eq_error_of_unbound free
        ((Scope.value?_of_unbound unbound).trans
          (offered (Expr.isVariable_of_parse parsed free)))
        (definition.drawsAfterParameters context draws before.length)
      have evaluated := evaluate_of_readExpression ran
      rw [Scope.evaluate, parsed] at evaluated
      have both : Except.error error = Except.ok value :=
        congrArg Prod.fst (failed.symm.trans evaluated)
      cases both

/-- Absence spreads where the host offers nothing under the absent name. -/
theorem propagates_of_not_offered {definition : Definition}
    (ordered : definition.isScripted = false) {context : Context} {draws : Draws} {name : String}
    (absent : name ∈ ((definition.instantiate context).run draws).1.absent)
    (offered : Expr.IsVariable name → context.offer? name = none)
    : definition.Propagates name ((definition.instantiate context).run draws).1 where
  parameters := by
    intro before literal between other otherLiteral after e split parsed free
    have split : definition.parameters.entries
        = (before ++ (name, literal) :: between) ++ (other, otherLiteral) :: after := by
      simpa using split
    exact absent_of_reads_absent ordered absent offered split parsed free
  placeholders := by
    have unbound (readable : Expr.IsVariable name) : Scope.value?
        ⟨((definition.instantiate context).run draws).1.values, context⟩ name = none :=
      (Scope.value?_of_unbound (not_mem_names_of_absent ordered absent)).trans (offered readable)
    refine ⟨_, _, _, _, Template.keepsAll_render unbound _ _, Template.keepsAll_render unbound _ _,
      keepsAll_renderChoices unbound _ _, ?_, rfl, rfl, rfl, rfl, rfl⟩
    exact fun noChoices => keepsAll_renderAnswer unbound _ (by simp [ofDefinition, noChoices]) _ _

-----------------------------------------------------------------------------------------
-- An offer of the host stops it
-----------------------------------------------------------------------------------------

/-- A definition with a parameter that no host can give a value to, and one that reads it. -/
def withUnreadable (name : String) : Definition :=
  { parameters := .ofList [(name, .verbatim "("), (name ++ "_", .verbatim name)] }

theorem ne_append_underscore (name : String) : name ≠ name ++ "_" := by
  intro same
  simpa using congrArg String.length same

/-- The declared parameters stand in order, since their names differ. -/
theorem parameters_withUnreadable (name : String)
    : (withUnreadable name).parameters.entries
        = [(name, .verbatim "("), (name ++ "_", .verbatim name)] := by
  simp [withUnreadable, Table.ofList, Table.insertAll, Table.insert, Table.empty, insertEntry,
    ne_append_underscore]

/-- Neither parameter is a script, unless the name is the script's own. -/
theorem isScripted_withUnreadable {name : String} (named : name ≠ Section.scriptKey)
    : (withUnreadable name).isScripted = false := by
  have unlike : name ++ "_" ≠ Section.scriptKey := by
    intro same
    have last := congrArg (fun text => text.toList.getLast?) same
    simp [Section.scriptKey] at last
  simp [isScripted, Table.contains, Table.get?, parameters_withUnreadable, findEntry?, named,
    unlike]

/-- The first parameter is absent, since its text is no expression. -/
theorem absent_withUnreadable {name : String} (named : name ≠ Section.scriptKey)
    (context : Context) (draws : Draws)
    : name ∈ (((withUnreadable name).instantiate context).run draws).1.absent := by
  have split : (withUnreadable name).parameters.entries
      = [] ++ (name, .verbatim "(") :: [(name ++ "_", .verbatim name)] :=
    parameters_withUnreadable name
  obtain ⟨_, result, _, ran, _, missing⟩ :=
    outcome_of_split (isScripted_withUnreadable named) context draws split
  -- No expression ends behind an opening parenthesis, whatever the host and the draws are.
  have unreadable : Expr.parse "(" = .error (.badSyntax (.unexpectedInput "(")) := rfl
  have refused (later : List String)
      : readExpression name (.verbatim "(") later = .error (.badSyntax (.unexpectedInput "(")) :=
    congrArg (fun read => Except.bind read _) unreadable
  rw [refused] at ran
  exact missing.mpr ⟨_, (congrArg Prod.fst ran).symm⟩

/-- The second parameter has the value that the host offers under the name of the first one. -/
theorem get?_withUnreadable {context : Context} {name : String} {value : Value}
    (readable : Expr.IsVariable name) (named : name ≠ Section.scriptKey)
    (offered : context.offer? name = some value) (draws : Draws)
    : (((withUnreadable name).instantiate context).run draws).1.values.get? (name ++ "_")
        = some value := by
  have ordered := isScripted_withUnreadable named
  have split : (withUnreadable name).parameters.entries
      = [(name, .verbatim "(")] ++ (name ++ "_", .verbatim name) :: [] :=
    parameters_withUnreadable name
  obtain ⟨earlier, result, entries, ran, found, _⟩ := outcome_of_split ordered context draws split
  have unbound : name ∉ earlier.names :=
    not_mem_earlier_of_absent ordered (absent_withUnreadable named context draws) entries
  have read : readExpression (name ++ "_") (.verbatim name) [] = .ok (.ident name) := by
    refine readExpression_eq_ok (Expr.parse_variable readable) (fun free member => ?_)
    obtain rfl := List.mem_singleton.mp (Expr.mem_freeNames.mp member)
    exact fun own => ne_append_underscore free (List.mem_singleton.mp own)
  have evaluated : Expr.eval ⟨earlier, context⟩ (.ident name) = pure value := by
    rw [Expr.eval, (Scope.value?_of_unbound unbound).trans offered]
  rw [List.map_nil, read] at ran
  have result : Except.ok value = result := by
    have ran : (Expr.eval ⟨earlier, context⟩ (.ident name)).outcome _ = (result, _) := ran
    rw [evaluated] at ran
    exact congrArg Prod.fst ran
  rw [found, ← result]
  rfl

/-- Absence does not spread where the host offers something under the absent name: the value of
the host takes its place. -/
theorem not_propagates_of_offered {context : Context} {name : String} {value : Value}
    (readable : Expr.IsVariable name) (named : name ≠ Section.scriptKey)
    (offered : context.offer? name = some value) (draws : Draws)
    : ¬ (withUnreadable name).Propagates name
        (((withUnreadable name).instantiate context).run draws).1 := by
  intro spreads
  have missing := spreads.parameters [] _ [] (name ++ "_") _ [] (.ident name)
    (parameters_withUnreadable name) (Expr.parse_variable readable)
    (Expr.mem_freeNames.mpr (List.mem_singleton.mpr rfl))
  have valued := get?_withUnreadable readable named offered draws
  have unbound := not_mem_names_of_absent (isScripted_withUnreadable named) missing
  rw [Table.get?_eq_none_iff.mpr unbound] at valued
  exact nomatch valued

/-- Absence under a name spreads in every definition and every run exactly if the host offers
nothing under that name. Names that no expression can read, and the script's own, are an exception:
nothing reads the former, and the latter is never absent.
-/
theorem absence_propagates_iff (name : String) (context : Context)
    : (∀ definition : Definition,
        definition.isScripted = false
        → ∀ draws,
          let instantiation := ((definition.instantiate context).run draws).1
          name ∈ instantiation.absent
          → definition.Propagates name instantiation)
      ↔ (Expr.IsVariable name → name ≠ Section.scriptKey → context.offer? name = none) := by
  constructor
  · intro spreads readable named
    cases offered : context.offer? name with
    | none => rfl
    | some value =>
        -- The definition made for this name has an absent parameter and a value that reads it.
        have draws := Draws.ofSeed 0
        exact absurd
          (spreads _ (isScripted_withUnreadable named) draws
            (absent_withUnreadable named context draws))
          (not_propagates_of_offered readable named offered draws)
  · intro offered definition ordered draws instantiation absent
    have named := ne_scriptKey_of_absent ordered absent
    exact propagates_of_not_offered ordered absent (fun readable => offered readable named)

/-- A division by zero, and a parameter and a text that read its absent value. -/
def withDivisionByZero : Definition :=
  { statement := "@\x7bp\x7d and @\x7bq\x7d"
    parameters := .ofList [("p", .verbatim "1/0"), ("q", .verbatim "p + 1")] }

/-- A host that has a value of its own under the name of the division. -/
def hostWithValue : Context :=
  { externals := .ofList [("p", .number (.integer 99 (by decide)))] }

/-- The value of the host hides that a parameter is absent: what reads the parameter has a value. -/
theorem host_value_hides_absence
    : let instantiation :=
        ((withDivisionByZero.instantiate hostWithValue).run (.ofSeed 0)).1
      withDivisionByZero.isScripted = false
      ∧ instantiation.absent = ["p"]
      ∧ instantiation.variant.statement = "99 and 100"
      ∧ instantiation.unresolved = 0
      ∧ ¬ withDivisionByZero.Propagates "p" instantiation := by
  have absent : ((withDivisionByZero.instantiate hostWithValue).run (.ofSeed 0)).1.absent
      = ["p"] := by
    decide +kernel
  refine ⟨rfl, absent, by decide +kernel, by decide +kernel, fun spreads => ?_⟩
  obtain ⟨e, parsed, reads⟩ : ∃ e, Expr.parse "p + 1" = .ok e ∧ "p" ∈ e.freeNames := by
    decide +kernel
  have missing :=
    spreads.parameters [] ("p", .verbatim "1/0").2 [] "q" (.verbatim "p + 1") [] e rfl parsed reads
  rw [absent] at missing
  exact absurd missing (by decide)

end Definition

end QuizVariants
