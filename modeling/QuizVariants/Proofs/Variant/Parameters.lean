import QuizVariants.Proofs.Expr.Completeness
import QuizVariants.Proofs.Table.Bindings
import QuizVariants.Proofs.Variant.Resolution

/-! Values of parameters.
Instantiating a definition without a script splits its declared parameters into those with a value
and the absent ones. Which of the two a parameter is depends on its expression and on the values
before it; what the context offers under a name that is not declared before it does not count.
-/

namespace QuizVariants

open QuizVariants.Plan
open QuizVariants.Random

theorem Definition.get?_scriptKey {definition : Definition}
    (ordered : definition.isScripted = false)
    : definition.parameters.get? Section.scriptKey = none := by
  simpa [isScripted, Table.contains] using ordered

theorem Plan.parameters_ofDefinition {definition : Definition}
    (ordered : definition.isScripted = false)
    : (ofDefinition definition).parameters
        = .ordered (readParameters definition.parameters.entries) := by
  simp [ofDefinition, Definition.get?_scriptKey ordered]

/-- What an instantiation resolves is what the resolution of its parameters gives. -/
theorem Definition.instantiate_eq_resolveOrdered {definition : Definition}
    (ordered : definition.isScripted = false) (context : Context) (draws : Draws)
    : let instantiation := ((definition.instantiate context).run draws).1
      let resolution := ((resolveOrdered context {}
        (readParameters definition.parameters.entries)).run draws).1
      instantiation.values = resolution.values ∧ instantiation.absent = resolution.absent := by
  have resolved : (ofDefinition definition).resolve context
      = resolveOrdered context {} (readParameters definition.parameters.entries) := by
    rw [resolve, parameters_ofDefinition ordered]
  rw [← resolved]
  exact ⟨rfl, rfl⟩

namespace Definition

-----------------------------------------------------------------------------------------
-- One parameter of a definition
-----------------------------------------------------------------------------------------

/-- The draws that are left when the first `count` parameters of a definition are resolved. -/
def drawsAfterParameters (definition : Definition) (context : Context) (draws : Draws)
    (count : Nat)
    : Draws :=
  ((resolveOrdered context {} ((readParameters definition.parameters.entries).take count)).run
    draws).2

/-- A declared parameter is evaluated once, after the values of the earlier names and on the draws
that the earlier parameters leave, and this alone decides whether it is absent.
-/
theorem outcome_of_split {definition : Definition} (ordered : definition.isScripted = false)
    (context : Context) (draws : Draws) {before after : List (String × Literal)}
    {name : String} {literal : Literal}
    (split : definition.parameters.entries = before ++ (name, literal) :: after)
    : let instantiation := ((definition.instantiate context).run draws).1
      ∃ earlier result,
        earlier.entries
          = instantiation.values.entries.filter (fun entry => entry.1 ∈ before.map Prod.fst)
        ∧ (Scope.evalRead ⟨earlier, context⟩
              (readExpression name literal (after.map Prod.fst))).outcome
            (definition.drawsAfterParameters context draws before.length)
          = (result, definition.drawsAfterParameters context draws (before.length + 1))
        ∧ instantiation.values.get? name = result.toOption
        ∧ (name ∈ instantiation.absent ↔ ∃ error, result = .error error) := by
  intro instantiation
  obtain ⟨first, names, read⟩ := readParameters_append before ((name, literal) :: after)
  rw [← split, readParameters_cons] at read
  have distinct := definition.parameters.distinct
  rw [← names_readParameters, read] at distinct
  have size : first.length = before.length := by
    simpa using congrArg List.length names
  obtain ⟨values, absent⟩ := instantiate_eq_resolveOrdered ordered context draws
  have resolved := Plan.resolved_of_split context draws _ _ _ distinct
  rw [← read] at resolved
  have firstPart : (readParameters definition.parameters.entries).take before.length = first := by
    rw [read, ← size]
    simp
  have nextPart : (readParameters definition.parameters.entries).take (before.length + 1)
      = first
        ++ [⟨name, literal.expression, readExpression name literal (after.map Prod.fst)⟩] := by
    rw [read, ← size, List.take_add]
    simp
  -- The values before the parameter are those of the final ones that have earlier names.
  refine ⟨((resolveOrdered context {} first).run draws).1.values,
    (outcomeAfter context first
      ⟨name, literal.expression, readExpression name literal (after.map Prod.fst)⟩ draws).1,
    ?_, ?_, ?_, ?_⟩
  · rw [resolved.earlier, ← values, names]
  · rw [drawsAfterParameters, drawsAfterParameters, firstPart, nextPart, ← outcomeAfter_snd]
    rfl
  · exact (congrArg (fun table => table.get? name) values).trans resolved.value
  · rw [show instantiation.absent = _ from absent]
    exact resolved.absent

/-- A parameter without names in its expression is evaluated in some scope, whatever the context
offers and the other parameters are. -/
theorem outcome_of_closed {definition : Definition} (ordered : definition.isScripted = false)
    (context : Context) (draws : Draws) {name : String} {literal : Literal} {e : Expr}
    (declared : definition.parameters.get? name = some literal)
    (parsed : Expr.parse literal.expression = .ok e) (closed : e.freeNames = [])
    : ∃ scope earlier result later,
        (e.eval scope).outcome earlier = (result, later)
        ∧ ((definition.instantiate context).run draws).1.values.get? name = result.toOption := by
  obtain ⟨before, after, split⟩ := List.append_of_mem (Table.get?_eq_some_iff.mp declared)
  have read : readExpression name literal (after.map Prod.fst) = .ok e := by
    refine readExpression_eq_ok parsed fun free member => ?_
    rw [closed] at member
    exact nomatch member
  obtain ⟨earlier, result, _, ran, value, _⟩ := outcome_of_split ordered context draws split
  rw [read] at ran
  exact ⟨⟨earlier, context⟩, _, result, _, ran, value⟩

-----------------------------------------------------------------------------------------
-- All parameters of a definition
-----------------------------------------------------------------------------------------

/-- Every declared name has a value or is absent, and both kinds stand in the order of declaration;
witness: the whole run goes on from nothing with the declared names. -/
theorem instantiate_partitions {definition : Definition}
    (ordered : definition.isScripted = false) (context : Context) (draws : Draws)
    : let instantiation := ((definition.instantiate context).run draws).1
      instantiation.absent.Sublist definition.parameters.names
      ∧ instantiation.values.names
        = definition.parameters.names.filter (fun name => name ∉ instantiation.absent) := by
  intro instantiation
  obtain ⟨values, absent⟩ := instantiate_eq_resolveOrdered ordered context draws
  obtain ⟨bound, missing, continues⟩ := resolveOrdered_continues context {}
    (readParameters definition.parameters.entries) draws
    (by rw [names_readParameters]; exact definition.parameters.distinct)
  rw [names_readParameters] at continues
  have missed : instantiation.absent = missing := absent.trans continues.absent
  refine ⟨missed ▸ continues.missing_sublist, ?_⟩
  rw [missed, show instantiation.values = _ from values, Table.names, continues.values]
  exact continues.names_bound

theorem mem_names_instantiate {definition : Definition}
    (ordered : definition.isScripted = false) {context : Context} {draws : Draws} {name : String}
    : let instantiation := ((definition.instantiate context).run draws).1
      name ∈ instantiation.values.names
      ↔ name ∈ definition.parameters.names ∧ name ∉ instantiation.absent := by
  intro instantiation
  rw [(instantiate_partitions ordered context draws).2, List.mem_filter, decide_eq_true_iff]

/-- A value that was read from an expression is a value of the expression's text. -/
theorem evaluate_of_readExpression {scope : Scope} {name : String} {literal : Literal}
    {later : List String} {value : Value} {draws rest : Draws}
    (h : (scope.evalRead (readExpression name literal later)).outcome draws = (.ok value, rest))
    : (scope.evaluate literal.expression).outcome draws = (.ok value, rest) := by
  cases read : readExpression name literal later with
  | error error =>
      rw [read] at h
      exact nomatch congrArg Prod.fst h
  | ok e =>
      rw [read] at h
      rw [Scope.evaluate, parse_of_readExpression read]
      exact h

/-- Parameters are resolved from left to right.
The names with a value and the absent names are in the order of declaration, disjoint, and together
the declared ones. A parameter that refers to itself or to a later one is absent. Each parameter is
evaluated once, in a scope whose values are those of the parameters declared before it and on the
draws that these leave; a value is the value of the text of its expression.
-/
theorem instantiate_resolves_in_order {definition : Definition}
    (ordered : definition.isScripted = false) (context : Context) (draws : Draws)
    : let declared := definition.parameters.names
      let instantiation := ((definition.instantiate context).run draws).1
      let drawsAfter := definition.drawsAfterParameters context draws
      (instantiation.values.names.Sublist declared
        ∧ instantiation.absent.Sublist declared
        ∧ (∀ name ∈ instantiation.values.names, name ∉ instantiation.absent)
        ∧ (∀ name,
            name ∈ declared
            ↔ name ∈ instantiation.values.names ∨ name ∈ instantiation.absent)
        ∧ (instantiation.values.names = declared ↔ instantiation.absent = []))
      ∧ (∀ before name literal after e other,
          definition.parameters.entries = before ++ (name, literal) :: after
          → Expr.parse literal.expression = .ok e
          → other ∈ name :: after.map Prod.fst
          → other ∈ e.freeNames
          → name ∈ instantiation.absent)
      ∧ drawsAfter 0 = draws
      ∧ ∀ before name literal after,
          definition.parameters.entries = before ++ (name, literal) :: after
          → ∃ earlier result,
              earlier.entries
                = instantiation.values.entries.filter
                    (fun entry => entry.1 ∈ before.map Prod.fst)
              ∧ (Scope.evalRead ⟨earlier, context⟩
                    (readExpression name literal (after.map Prod.fst))).outcome
                  (drawsAfter before.length)
                = (result, drawsAfter (before.length + 1))
              ∧ instantiation.values.get? name = result.toOption
              ∧ ∀ value,
                  instantiation.values.get? name = some value
                  → (Scope.evaluate ⟨earlier, context⟩ literal.expression).outcome
                      (drawsAfter before.length)
                    = (.ok value, drawsAfter (before.length + 1)) := by
  intro declared instantiation drawsAfter
  obtain ⟨absent, values⟩ := instantiate_partitions ordered context draws
  change instantiation.absent.Sublist declared at absent
  change instantiation.values.names
    = declared.filter (fun name => name ∉ instantiation.absent) at values
  have valued (name : String)
      : name ∈ instantiation.values.names ↔ name ∈ declared ∧ name ∉ instantiation.absent :=
    mem_names_instantiate ordered
  refine ⟨⟨?_, absent, ?_, ?_, ?_⟩, ?_, rfl, ?_⟩
  · rw [values]
    exact List.filter_sublist
  · intro name member
    exact ((valued name).mp member).2
  · intro name
    rw [valued]
    constructor
    · intro member
      exact (em (name ∈ instantiation.absent)).elim Or.inr (fun kept => Or.inl ⟨member, kept⟩)
    · rintro (⟨member, _⟩ | missing)
      · exact member
      · exact absent.subset missing
  · constructor
    · intro all
      refine List.eq_nil_iff_forall_not_mem.mpr (fun name missing => ?_)
      have member : name ∈ instantiation.values.names := all ▸ absent.subset missing
      exact ((valued name).mp member).2 missing
    · intro none
      simp [values, none]
  · intro before name literal after e other split parsed undeclared free
    obtain ⟨_, result, _, ran, _, missing⟩ := outcome_of_split ordered context draws split
    obtain ⟨error, refused⟩ := readExpression_eq_error parsed undeclared free
    rw [refused] at ran
    exact missing.mpr ⟨error, (congrArg Prod.fst ran).symm⟩
  · intro before name literal after split
    obtain ⟨earlier, result, entries, ran, found, _⟩ :=
      outcome_of_split ordered context draws split
    refine ⟨earlier, result, entries, ran, found, ?_⟩
    intro value valued
    rw [show instantiation.values.get? name = _ from found] at valued
    cases result with
    | error error => exact nomatch valued
    | ok other =>
        obtain rfl := Option.some.inj valued
        exact evaluate_of_readExpression ran

/-- A parameter that reads the one after it. -/
def withForwardReference : Definition :=
  { parameters := .ofList [("a", .verbatim "b"), ("b", .verbatim "2")] }

/-- A reference to a later parameter has no value, even where the host has one for it. -/
theorem forward_reference_is_absent
    : withForwardReference.isScripted = false
      ∧ "a" ∈ ((withForwardReference.instantiate { externals := .ofList [("b", .bool true)] }).run
          (.ofSeed 0)).1.absent := by
  have ordered : withForwardReference.isScripted = false := rfl
  refine ⟨ordered, ?_⟩
  exact (instantiate_resolves_in_order ordered _ _).2.1 [] "a" (.verbatim "b")
    [("b", .verbatim "2")] (.ident "b") "b" rfl (Expr.parse_variable (by decide)) (by simp)
    (Expr.mem_freeNames.mpr (by simp [Expr.mentioned]))

end Definition

end QuizVariants
