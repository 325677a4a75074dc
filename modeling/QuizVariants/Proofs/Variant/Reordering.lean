import QuizVariants.Proofs.Except
import QuizVariants.Proofs.Expr.Determinism
import QuizVariants.Proofs.Table.Bindings
import QuizVariants.Proofs.Template.Agreement
import QuizVariants.Proofs.Variant.Parameters

/-! Orders of declaration.
The values of parameters solve their declarations: each of them is the value of its expression
among all of them. When no parameter refers to itself or to a later one there is one solution only,
so that the order of declaration is not seen by what an instantiation resolves and renders.
-/

namespace QuizVariants

open QuizVariants.Evaluation
open QuizVariants.Plan
open QuizVariants.Random
open QuizVariants.Template

/-- The expression of a parameter refers to a name. -/
def Literal.RefersTo (literal : Literal) (name : String) : Prop :=
  ∃ e, Expr.parse literal.expression = .ok e ∧ name ∈ e.freeNames

instance (literal : Literal) (name : String) : Decidable (literal.RefersTo name) :=
  inferInstanceAs (Decidable (∃ e : Expr, _ ∧ name ∈ e.freeNames))

/-- No parameter refers to itself or to a later one. -/
structure Definition.InOrder (definition : Definition) : Prop where
  own : ∀ entry ∈ definition.parameters.entries, ¬ entry.2.RefersTo entry.1
  later
    : definition.parameters.entries.Pairwise (fun entry later => ¬ entry.2.RefersTo later.1)

instance (definition : Definition) : Decidable definition.InOrder :=
  decidable_of_iff
    ((∀ entry ∈ definition.parameters.entries, ¬ entry.2.RefersTo entry.1)
      ∧ definition.parameters.entries.Pairwise (fun entry later => ¬ entry.2.RefersTo later.1))
    ⟨fun ⟨own, later⟩ => ⟨own, later⟩, fun h => ⟨h.own, h.later⟩⟩

/-- No parameter calls a random function of the library. -/
def Definition.CallsNothingRandom (definition : Definition) (context : Context) : Prop :=
  ∀ entry ∈ definition.parameters.entries,
    ∀ e, Expr.parse entry.2.expression = .ok e → Expr.AllSteady context e.called

instance (definition : Definition) (context : Context)
    : Decidable (definition.CallsNothingRandom context) :=
  inferInstanceAs (Decidable (∀ entry ∈ definition.parameters.entries, ∀ _, _ → _))

/-- A definition with other declarations in place of its own. -/
def Definition.withParameters (definition : Definition) (parameters : Table Literal)
    : Definition :=
  { definition with parameters }

-----------------------------------------------------------------------------------------
-- Solutions of declarations
-----------------------------------------------------------------------------------------

/-- Values of declared parameters: each is the value of its expression among these values, or there
is none in both cases.
-/
structure Solves (context : Context) (declared : List (String × Literal)) (values : Table Value)
    : Prop where
  within : ∀ name ∈ values.names, name ∈ declared.map Prod.fst
  value
    : ∀ name literal draws,
      (name, literal) ∈ declared
      → values.get? name
        = ((Scope.evaluate ⟨values, context⟩ literal.expression).outcome draws).1.toOption

/-- The order of declarations does not matter to a solution. -/
theorem Solves.perm {context : Context} {first second : List (String × Literal)}
    {values : Table Value} (h : Solves context first values) (same : first.Perm second)
    : Solves context second values where
  within := fun name bound => (same.map Prod.fst).mem_iff.mp (h.within name bound)
  value := fun name literal draws member => h.value name literal draws (same.mem_iff.mpr member)

/-- Names that are not declared are bound in no solution. -/
theorem Solves.get?_eq_none {context : Context} {declared : List (String × Literal)}
    {values : Table Value} (h : Solves context declared values) {name : String}
    (undeclared : name ∉ declared.map Prod.fst)
    : values.get? name = none :=
  Table.get?_eq_none_iff.mpr (mt (h.within name) undeclared)

/-- Scopes over one context agree on names that their tables bind alike. -/
theorem Scope.agree_of_get?_eq {first second : Table Value} {names : List String}
    (context : Context) (h : ∀ name ∈ names, first.get? name = second.get? name)
    : Scope.Agree ⟨first, context⟩ ⟨second, context⟩ names := by
  intro name member
  simp only [Scope.value?, h name member]

/-- An expression has the same value, or none, among values that are alike on its free names. -/
theorem toOption_evaluate_eq {first second : Table Value} {source : String} (context : Context)
    (h : ∀ e,
      Expr.parse source = .ok e
      → ∀ name ∈ e.freeNames, first.get? name = second.get? name)
    (draws : Draws)
    : ((Scope.evaluate ⟨first, context⟩ source).outcome draws).1.toOption
        = ((Scope.evaluate ⟨second, context⟩ source).outcome draws).1.toOption := by
  unfold Scope.evaluate
  cases parsed : Expr.parse source with
  | error fault => rfl
  | ok e =>
      have operations : Scope.SameOperations ⟨first, context⟩ ⟨second, context⟩ :=
        ⟨fun _ => rfl, rfl, rfl⟩
      have agree : Scope.Agree ⟨first, context⟩ ⟨second, context⟩ e.mentioned :=
        Scope.agree_of_get?_eq context
          (fun name read => h e parsed name (Expr.mem_freeNames.mpr read))
      exact (Expr.eval_alike operations e agree draws).toOption_eq

theorem Definition.InOrder.not_refersTo {definition : Definition} (h : definition.InOrder)
    {before after : List (String × Literal)} {name : String} {literal : Literal}
    (split : definition.parameters.entries = before ++ (name, literal) :: after) {free : String}
    (refers : literal.RefersTo free)
    : free ∉ name :: after.map Prod.fst := by
  have own := h.own (name, literal) (by simp [split])
  have later := h.later
  rw [split] at later
  have behind := (List.pairwise_cons.mp (List.pairwise_append.mp later).2.1).1
  intro member
  rcases List.mem_cons.mp member with rfl | member
  · exact own refers
  · obtain ⟨entry, inside, rfl⟩ := List.mem_map.mp member
    exact behind entry inside refers

/-- A name that a parameter in order refers to is declared before it, or it is not declared. -/
theorem Definition.InOrder.mem_or_undeclared {definition : Definition} (h : definition.InOrder)
    {before after : List (String × Literal)} {name : String} {literal : Literal}
    (split : definition.parameters.entries = before ++ (name, literal) :: after) {free : String}
    (refers : literal.RefersTo free)
    : free ∈ before.map Prod.fst ∨ free ∉ definition.parameters.names := by
  have late := h.not_refersTo split refers
  rw [Table.names, split, List.map_append, List.map_cons, List.mem_append]
  exact (em _).imp_right (fun early => not_or.mpr ⟨early, late⟩)

/-- Solutions of declarations in order agree on the first declarations, by induction on these from
the first one on. -/
theorem Solves.get?_eq {definition : Definition} (inOrder : definition.InOrder) {context : Context}
    {first second : Table Value} (h : Solves context definition.parameters.entries first)
    (h' : Solves context definition.parameters.entries second)
    {before after : List (String × Literal)}
    (split : definition.parameters.entries = before ++ after)
    : ∀ name ∈ before.map Prod.fst, first.get? name = second.get? name := by
  induction before using List.reverseRecOn generalizing after with
  | nil => exact fun _ member => nomatch member
  | append_singleton before entry ih =>
      obtain ⟨own, literal⟩ := entry
      intro name member
      rw [List.append_assoc, List.singleton_append] at split
      rw [List.map_append, List.mem_append] at member
      rcases member with member | member
      · exact ih split name member
      obtain rfl := List.mem_singleton.mp member
      have declared : (name, literal) ∈ definition.parameters.entries := by simp [split]
      rw [h.value name literal (.ofSeed 0) declared, h'.value name literal (.ofSeed 0) declared]
      refine toOption_evaluate_eq context (fun e parsed free read => ?_) _
      rcases inOrder.mem_or_undeclared split ⟨e, parsed, read⟩ with early | undeclared
      · exact ih split free early
      · rw [h.get?_eq_none undeclared, h'.get?_eq_none undeclared]

/-- Declarations in order have one solution. -/
theorem Solves.unique {definition : Definition} (inOrder : definition.InOrder) {context : Context}
    {first second : Table Value} (h : Solves context definition.parameters.entries first)
    (h' : Solves context definition.parameters.entries second)
    : Table.BindAlike first second := by
  intro name
  by_cases declared : name ∈ definition.parameters.names
  · exact h.get?_eq inOrder h' (List.append_nil _).symm name declared
  · rw [h.get?_eq_none declared, h'.get?_eq_none declared]

-----------------------------------------------------------------------------------------
-- The values of an instantiation are a solution
-----------------------------------------------------------------------------------------

namespace Definition

/-- An instantiation of parameters in order gives a solution.
Witness: where a parameter is evaluated, all of its free names have their final values, and the
draws there do not matter.
-/
theorem solves_instantiate {definition : Definition} (ordered : definition.isScripted = false)
    {context : Context} (calm : definition.CallsNothingRandom context)
    (inOrder : definition.InOrder) (draws : Draws)
    : Solves context definition.parameters.entries
        ((definition.instantiate context).run draws).1.values := by
  have within : ∀ name ∈ ((definition.instantiate context).run draws).1.values.names,
      name ∈ definition.parameters.names :=
    fun name bound => ((mem_names_instantiate ordered).mp bound).1
  refine ⟨within, fun name literal others member => ?_⟩
  obtain ⟨before, after, split⟩ := List.append_of_mem member
  obtain ⟨earlier, result, entries, ran, found, _⟩ :=
    outcome_of_split ordered context draws split
  have read : readExpression name literal (after.map Prod.fst)
      = Expr.parse literal.expression := by
    cases parsed : Expr.parse literal.expression with
    | error fault => rw [readExpression, parsed]; rfl
    | ok e =>
        exact readExpression_eq_ok parsed
          (fun free read => inOrder.not_refersTo split ⟨e, parsed, read⟩)
  rw [read] at ran
  obtain ⟨steady, same⟩ := @Scope.steady_evalRead ⟨earlier, context⟩ _
    (fun e parsed => calm (name, literal) member e parsed)
  obtain rfl : result = steady := (congrArg Prod.fst ran).symm.trans (congrArg Prod.fst (same _))
  have evaluated : ((Scope.evaluate ⟨earlier, context⟩ literal.expression).outcome others).1
      = result :=
    congrArg Prod.fst (same others)
  rw [found, ← evaluated]
  refine toOption_evaluate_eq context (fun e parsed free inside => ?_) others
  rw [Table.get?, entries]
  rcases inOrder.mem_or_undeclared split ⟨e, parsed, inside⟩ with early | undeclared
  · exact findEntry?_filter early _
  · have unbound := mt (within free) undeclared
    rw [Table.get?_eq_none_iff.mpr unbound]
    refine findEntry?_eq_none_iff.mpr (fun bound => unbound ?_)
    exact (List.filter_sublist.map Prod.fst).subset bound

theorem mem_absent_instantiate {definition : Definition}
    (ordered : definition.isScripted = false) {context : Context} {draws : Draws} {name : String}
    : let instantiation := ((definition.instantiate context).run draws).1
      name ∈ instantiation.absent
      ↔ name ∈ definition.parameters.names ∧ name ∉ instantiation.values.names := by
  intro instantiation
  have valued : name ∈ instantiation.values.names
      ↔ name ∈ definition.parameters.names ∧ name ∉ instantiation.absent :=
    mem_names_instantiate ordered
  have declared : name ∈ instantiation.absent → name ∈ definition.parameters.names :=
    fun absent => (instantiate_partitions ordered context draws).1.subset absent
  tauto

end Definition

-----------------------------------------------------------------------------------------
-- Two orders of the same declarations
-----------------------------------------------------------------------------------------

/-- Resolutions with the same values and the same absent parameters, in some order each. -/
structure Plan.Resolution.SameUpToOrder (first second : Resolution) : Prop where
  values : first.values.entries.Perm second.values.entries
  absent : first.absent.Perm second.absent

/-- Instantiations with the same values and the same absent parameters, in some order each, and with
the same variant. -/
structure Instantiation.SameUpToOrder (first second : Instantiation) : Prop where
  values : first.values.entries.Perm second.values.entries
  absent : first.absent.Perm second.absent
  variant : first.variant = second.variant
  unresolved : first.unresolved = second.unresolved

namespace Definition

/-- The script does not depend on the order of declarations. -/
theorem get?_scriptKey_withParameters {definition : Definition} {parameters : Table Literal}
    (same : parameters.entries.Perm definition.parameters.entries)
    : (definition.withParameters parameters).parameters.get? Section.scriptKey
        = definition.parameters.get? Section.scriptKey :=
  findEntry?_eq_of_perm same parameters.distinct Section.scriptKey

theorem isScripted_withParameters {definition : Definition} {parameters : Table Literal}
    (same : parameters.entries.Perm definition.parameters.entries)
    : (definition.withParameters parameters).isScripted = definition.isScripted :=
  congrArg Option.isSome (get?_scriptKey_withParameters same)

theorem CallsNothingRandom.withParameters {definition : Definition} {context : Context}
    (calm : definition.CallsNothingRandom context) {parameters : Table Literal}
    (same : parameters.entries.Perm definition.parameters.entries)
    : (definition.withParameters parameters).CallsNothingRandom context :=
  fun entry member => calm entry (same.mem_iff.mp member)

/-- Two orders of the same declarations give the same values and the same absent parameters, also
on different draws; witness: there is one solution only. -/
theorem resolved_perm {definition : Definition} {parameters : Table Literal}
    (same : parameters.entries.Perm definition.parameters.entries)
    (ordered : definition.isScripted = false) {context : Context}
    (calm : definition.CallsNothingRandom context) (inOrder : definition.InOrder)
    (reordered : (definition.withParameters parameters).InOrder) (draws others : Draws)
    : let first := ((definition.instantiate context).run draws).1
      let second := (((definition.withParameters parameters).instantiate context).run others).1
      first.values.entries.Perm second.values.entries ∧ first.absent.Perm second.absent := by
  intro first second
  have ordered' : (definition.withParameters parameters).isScripted = false :=
    (isScripted_withParameters same).trans ordered
  have solution : Solves context definition.parameters.entries second.values :=
    (solves_instantiate ordered' (calm.withParameters same) reordered others).perm same
  have values : first.values.entries.Perm second.values.entries :=
    ((solves_instantiate ordered calm inOrder draws).unique inOrder solution).entries_perm
  have names : ∀ name, name ∈ first.values.names ↔ name ∈ second.values.names :=
    fun name => (values.map Prod.fst).mem_iff
  have declared : ∀ name,
      name ∈ (definition.withParameters parameters).parameters.names
      ↔ name ∈ definition.parameters.names :=
    fun name => (same.map Prod.fst).mem_iff
  refine ⟨values, (List.perm_ext_iff_of_nodup ?_ ?_).mpr (fun name => ?_)⟩
  · exact (instantiate_partitions ordered context draws).1.nodup definition.parameters.distinct
  · exact (instantiate_partitions ordered' context others).1.nodup parameters.distinct
  · have left : name ∈ first.absent
        ↔ name ∈ definition.parameters.names ∧ name ∉ first.values.names :=
      mem_absent_instantiate ordered
    have right : name ∈ second.absent
        ↔ name ∈ (definition.withParameters parameters).parameters.names
          ∧ name ∉ second.values.names :=
      mem_absent_instantiate ordered'
    rw [left, right, names, declared]

/-- Resolving parameters that call nothing random leaves the draws as they are, by induction on the
parameters. -/
theorem snd_run_resolveOrdered {context : Context} {parameters : List Parameter}
    (calm : ∀ parameter ∈ parameters,
      ∀ e, parameter.expression = .ok e → Expr.AllSteady context e.called)
    (resolution : Resolution) (draws : Draws)
    : ((resolveOrdered context resolution parameters).run draws).2 = draws := by
  induction parameters generalizing resolution draws with
  | nil => rfl
  | cons parameter rest ih =>
      obtain ⟨first, others⟩ := List.forall_mem_cons.mp calm
      obtain ⟨result, steady⟩ := @Scope.steady_evalRead ⟨resolution.values, context⟩ _ first
      rw [run_resolveOrdered_cons, steady]
      exact ih others _ draws

theorem snd_run_resolve {definition : Definition} (ordered : definition.isScripted = false)
    {context : Context} (calm : definition.CallsNothingRandom context) (draws : Draws)
    : (((ofDefinition definition).resolve context).run draws).2 = draws := by
  rw [resolve, parameters_ofDefinition ordered]
  refine snd_run_resolveOrdered (fun parameter member e read => ?_) {} draws
  obtain ⟨name, literal, later, declared, expression⟩ := exists_of_mem_readParameters member
  exact calm _ declared e (parse_of_readExpression (expression.symm.trans read))

theorem relates_resolve {definition : Definition} {parameters : Table Literal}
    (same : parameters.entries.Perm definition.parameters.entries) {context : Context}
    (calm : definition.CallsNothingRandom context) (inOrder : definition.InOrder)
    (reordered : (definition.withParameters parameters).InOrder)
    : Relates Resolution.SameUpToOrder ((ofDefinition definition).resolve context)
        ((ofDefinition (definition.withParameters parameters)).resolve context) := by
  cases script : definition.parameters.get? Section.scriptKey with
  | some body =>
      -- A script is the same whatever is declared around it.
      have again := (get?_scriptKey_withParameters same).trans script
      simp only [resolve, ofDefinition, script, again]
      exact .refl (fun _ => ⟨.rfl, .rfl⟩) _
  | none =>
      have ordered : definition.isScripted = false := congrArg Option.isSome script
      have ordered' := (isScripted_withParameters same).trans ordered
      intro draws
      obtain ⟨values, absent⟩ := resolved_perm same ordered calm inOrder reordered draws draws
      refine ⟨⟨values, absent⟩, ?_⟩
      rw [snd_run_resolve ordered calm, snd_run_resolve ordered' (calm.withParameters same)]

end Definition

-----------------------------------------------------------------------------------------
-- What is rendered
-----------------------------------------------------------------------------------------

namespace Plan

theorem relates_renderChoices {first second : Scope} (h : first.Alike second)
    (templates : List Template)
    : Relates (List.Forall₂ Rendered.Alike) (renderChoices first templates)
        (renderChoices second templates) := by
  induction templates with
  | nil => exact .pure .nil
  | cons template rest ih =>
      refine (relates_render h template).bind (fun _ _ rendered => ?_)
      exact ih.bind (fun _ _ others => .pure (.cons rendered others))

theorem relates_renderAnswer {first second : Scope} (h : first.Alike second) (answer : Template)
    {choices others : List Rendered} (alike : List.Forall₂ Rendered.Alike choices others)
    : Relates Rendered.Alike (renderAnswer first answer choices)
        (renderAnswer second answer others) := by
  cases alike with
  | nil => exact relates_render h answer
  | cons rendered _ => exact .pure ⟨rendered.text, rfl⟩

end Plan

/-- Templates that are rendered alike have the same texts and keep equally many placeholders. -/
theorem Template.Rendered.alike_all {first second : List Rendered}
    (h : List.Forall₂ Rendered.Alike first second)
    : first.map Rendered.text = second.map Rendered.text
      ∧ (first.flatMap Rendered.unresolved).length
        = (second.flatMap Rendered.unresolved).length := by
  induction h with
  | nil => exact ⟨rfl, rfl⟩
  | cons rendered _ ih =>
      have counted := congrArg List.length rendered.unresolved
      rw [List.length_map, List.length_map] at counted
      simp only [List.map_cons, List.flatMap_cons, List.length_append, rendered.text, ih, counted,
        and_self]

/-- The order of declarations does not matter beyond references.
Where no parameter calls a random function and none refers to itself or to a later one, neither in
one order nor in the other, the same parameters get the same values, the same ones are absent, and
on the same draws all texts are rendered alike. Values and absence do not depend on draws at all,
unless a script computes them.
-/
theorem Definition.instantiate_reordered {definition : Definition} {parameters : Table Literal}
    (same : parameters.entries.Perm definition.parameters.entries) {context : Context}
    (calm : definition.CallsNothingRandom context) (inOrder : definition.InOrder)
    (reordered : (definition.withParameters parameters).InOrder)
    : Relates Instantiation.SameUpToOrder (definition.instantiate context)
        ((definition.withParameters parameters).instantiate context)
      ∧ (definition.isScripted = false
        → ∀ draws others,
            let first := ((definition.instantiate context).run draws).1
            let second :=
              (((definition.withParameters parameters).instantiate context).run others).1
            first.values.entries.Perm second.values.entries
            ∧ first.absent.Perm second.absent) := by
  refine ⟨?_, fun ordered => resolved_perm same ordered calm inOrder reordered⟩
  refine (relates_resolve same calm inOrder reordered).bind (fun first second resolved => ?_)
  have scopes : Scope.Alike ⟨first.values, context⟩ ⟨second.values, context⟩ := by
    refine ⟨⟨fun _ => rfl, rfl, rfl⟩, fun name => ?_, rfl⟩
    have bound := findEntry?_eq_of_perm resolved.values first.values.distinct name
    simp only [Scope.value?, Table.get?, bound]
  refine (relates_render scopes _).bind (fun _ _ statement => ?_)
  refine (relates_render scopes _).bind (fun _ _ solution => ?_)
  refine (relates_renderChoices scopes _).bind (fun _ _ choices => ?_)
  refine (relates_renderAnswer scopes _ choices).bind (fun _ _ answer => .pure ?_)
  have rendered := List.rel_append (.cons statement (.cons solution choices)) (.cons answer .nil)
  refine ⟨resolved.values, resolved.absent, ?_, (Rendered.alike_all rendered).2⟩
  simp only [statement.text, solution.text, answer.text, (Rendered.alike_all choices).1]
  rfl

/-- A number, a division by zero, a call of a function, and a sum that reads the division. -/
def withReferences : Definition :=
  { statement := "@\x7bd\x7d, @\x7bc\x7d"
    parameters :=
      .ofList
        [("a", .verbatim "3"), ("b", .verbatim "1/0"), ("c", .verbatim "pick(a)"),
          ("d", .verbatim "b + a")] }

/-- The same parameters in another order that suits their references. -/
def otherOrder : Table Literal :=
  .ofList
    [("b", .verbatim "1/0"), ("a", .verbatim "3"), ("d", .verbatim "b + a"),
      ("c", .verbatim "pick(a)")]

/-- A host with a value under the name of a parameter and a function in place of a random one. -/
def hostWithPick : Context :=
  { externals := .ofList [("b", .number (.integer 4))]
    functions := .ofList [("pick", fun values => .ok (.list values))] }

/-- A value that the host offers under the name of an absent parameter is seen in both orders. -/
theorem instantiate_reordered_withReferences
    : otherOrder.entries.Perm withReferences.parameters.entries
      ∧ withReferences.CallsNothingRandom hostWithPick
      ∧ withReferences.InOrder
      ∧ (withReferences.withParameters otherOrder).InOrder
      ∧ withReferences.isScripted = false
      ∧ Relates Instantiation.SameUpToOrder (withReferences.instantiate hostWithPick)
        ((withReferences.withParameters otherOrder).instantiate hostWithPick)
      ∧ ((withReferences.instantiate hostWithPick).run (.ofSeed 0)).1.absent.Perm
        (((withReferences.withParameters otherOrder).instantiate hostWithPick).run
          (.ofSeed 1)).1.absent := by
  have declared : withReferences.parameters.entries
      = [("a", .verbatim "3"), ("b", .verbatim "1/0"), ("c", .verbatim "pick(a)"),
          ("d", .verbatim "b + a")] := by
    rfl
  have redeclared : otherOrder.entries
      = [("b", .verbatim "1/0"), ("a", .verbatim "3"), ("d", .verbatim "b + a"),
          ("c", .verbatim "pick(a)")] := by
    rfl
  have same : otherOrder.entries.Perm withReferences.parameters.entries := by
    rw [declared, redeclared]
    exact (List.Perm.swap _ _ _).trans (((List.Perm.swap _ _ []).cons _).cons _)
  have calm : withReferences.CallsNothingRandom hostWithPick := by decide +kernel
  have inOrder : withReferences.InOrder := by decide +kernel
  have reordered : (withReferences.withParameters otherOrder).InOrder := by decide +kernel
  have ordered : withReferences.isScripted = false := by rfl
  obtain ⟨alike, resolved⟩ := Definition.instantiate_reordered same calm inOrder reordered
  exact ⟨same, calm, inOrder, reordered, ordered, alike, (resolved ordered _ _).2⟩

end QuizVariants
