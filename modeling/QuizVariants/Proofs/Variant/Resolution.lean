import QuizVariants.Proofs.Draws.Runs
import QuizVariants.Proofs.Table.Entries
import QuizVariants.Proofs.Variant.Declaration
import QuizVariants.Variant.Instantiation

/-! Resolution of parameters.
Parameters are resolved from left to right. What is resolved before a parameter is the first part
of what is resolved in the end, so that each value is the value of its expression after the
resolved parameters that are declared before it.
-/

namespace QuizVariants.Plan

open QuizVariants.Random

-----------------------------------------------------------------------------------------
-- One parameter after the other
-----------------------------------------------------------------------------------------

/-- A parameter is evaluated after the values so far, and its outcome is taken in before the
other parameters; witness: definitional equality. -/
theorem run_resolveOrdered_cons (context : Context) (resolution : Resolution)
    (parameter : Parameter) (rest : List Parameter) (draws : Draws)
    : (resolveOrdered context resolution (parameter :: rest)).run draws
        = (resolveOrdered context
              (resolution.take parameter
                ((Scope.evalRead ⟨resolution.values, context⟩ parameter.expression).outcome
                  draws).1)
              rest).run
            ((Scope.evalRead ⟨resolution.values, context⟩ parameter.expression).outcome
              draws).2 :=
  rfl

/-- The last parameters go on from what the first ones leave, by induction on the first ones. -/
theorem run_resolveOrdered_append (context : Context) (resolution : Resolution)
    (first second : List Parameter) (draws : Draws)
    : (resolveOrdered context resolution (first ++ second)).run draws
        = (resolveOrdered context ((resolveOrdered context resolution first).run draws).1
              second).run
            ((resolveOrdered context resolution first).run draws).2 := by
  induction first generalizing resolution draws with
  | nil => rfl
  | cons parameter rest ih =>
      rw [List.cons_append, run_resolveOrdered_cons, run_resolveOrdered_cons, ih]

/-- A resolution goes on with names: some of them are bound at the end, in order, and the others
are the `missing` ones.
-/
structure Resolution.Continues (earlier later : Resolution) (names : List String)
    (bound : List (String × Value)) (missing : List String)
    : Prop where
  values : later.values.entries = earlier.values.entries ++ bound
  absent : later.absent = earlier.absent ++ missing
  names_bound : bound.map Prod.fst = names.filter (fun name => name ∉ missing)
  missing_sublist : missing.Sublist names

theorem Resolution.Continues.mem_of_bound {earlier later : Resolution} {names : List String}
    {bound : List (String × Value)} {missing : List String}
    (continues : earlier.Continues later names bound missing) {entry : String × Value}
    (member : entry ∈ bound)
    : entry.1 ∈ names := by
  have named : entry.1 ∈ bound.map Prod.fst := List.mem_map_of_mem member
  rw [continues.names_bound] at named
  exact (List.mem_filter.mp named).1

/-- Names apart from those that a resolution goes on with are not bound by it. -/
theorem Resolution.Continues.findEntry?_bound_eq_none {earlier later : Resolution}
    {names : List String} {bound : List (String × Value)} {missing : List String}
    (continues : earlier.Continues later names bound missing) {name : String}
    (apart : name ∉ names)
    : findEntry? name bound = none := by
  refine findEntry?_eq_none_iff.mpr (fun member => ?_)
  obtain ⟨entry, inside, rfl⟩ := List.mem_map.mp member
  exact apart (continues.mem_of_bound inside)

/-- Names that all are kept keep what they bind. -/
theorem Resolution.Continues.filter_bound_eq_self {earlier later : Resolution}
    {names kept : List String} {bound : List (String × Value)} {missing : List String}
    (continues : earlier.Continues later names bound missing)
    (within : ∀ name ∈ names, name ∈ kept)
    : bound.filter (fun entry => entry.1 ∈ kept) = bound := by
  apply List.filter_eq_self.mpr
  intro entry member
  exact decide_eq_true (within entry.1 (continues.mem_of_bound member))

/-- Names that are not kept lose what they bind. -/
theorem Resolution.Continues.filter_bound_eq_nil {earlier later : Resolution}
    {names kept : List String} {bound : List (String × Value)} {missing : List String}
    (continues : earlier.Continues later names bound missing)
    (apart : ∀ name ∈ names, name ∉ kept)
    : bound.filter (fun entry => entry.1 ∈ kept) = [] := by
  apply List.filter_eq_nil_iff.mpr
  intro entry member accepted
  exact apart entry.1 (continues.mem_of_bound member) (of_decide_eq_true accepted)

/-- The entry that the outcome of a parameter binds. -/
def boundBy (name : String) : Except EvalError Value → List (String × Value)
  | .ok value => [(name, value)]
  | .error _ => []

/-- The name that the outcome of a parameter leaves without a value. -/
def missingBy (name : String) : Except EvalError Value → List String
  | .ok _ => []
  | .error _ => [name]

theorem findEntry?_boundBy (name : String) (result : Except EvalError Value)
    : findEntry? name (boundBy name result) = result.toOption := by
  cases result <;> simp [boundBy, findEntry?, Except.toOption]

theorem mem_missingBy (name : String) (result : Except EvalError Value)
    : name ∈ missingBy name result ↔ ∃ error, result = .error error := by
  cases result <;> simp [missingBy]

/-- A parameter with a fresh name is bound or missing, by cases on its outcome. -/
theorem Resolution.continues_take {resolution : Resolution} {parameter : Parameter}
    (fresh : parameter.name ∉ resolution.values.names) (result : Except EvalError Value)
    : resolution.Continues (resolution.take parameter result) [parameter.name]
        (boundBy parameter.name result) (missingBy parameter.name result) := by
  cases result with
  | ok value =>
      exact ⟨Table.entries_insert_of_fresh fresh, by simp [take, missingBy],
        by simp [boundBy, missingBy], by simp [missingBy]⟩
  | error error =>
      exact ⟨by simp [take, boundBy], rfl, by simp [boundBy, missingBy], List.Sublist.refl _⟩

/-- The names after going on are the earlier ones and some of the new ones. -/
theorem Resolution.Continues.names_sublist {earlier later : Resolution} {names : List String}
    {bound : List (String × Value)} {missing : List String}
    (continues : earlier.Continues later names bound missing)
    : later.values.names.Sublist (earlier.values.names ++ names) := by
  rw [Table.names, continues.values, List.map_append, continues.names_bound]
  exact List.Sublist.append_left List.filter_sublist _

/-- Going on twice is going on with all names, if no name comes twice. -/
theorem Resolution.Continues.trans {first second third : Resolution}
    {names others : List String} {bound more : List (String × Value)}
    {missing rest : List String} (left : first.Continues second names bound missing)
    (right : second.Continues third others more rest)
    (distinct : (names ++ others).Nodup)
    : first.Continues third (names ++ others) (bound ++ more) (missing ++ rest) := by
  obtain ⟨_, _, separate⟩ := List.nodup_append.mp distinct
  refine ⟨?_, ?_, ?_, left.missing_sublist.append right.missing_sublist⟩
  · rw [right.values, left.values, List.append_assoc]
  · rw [right.absent, left.absent, List.append_assoc]
  · rw [List.map_append, List.filter_append, left.names_bound, right.names_bound]
    -- Each part only misses names of its own.
    congr 1
    · refine List.filter_congr (fun name member => ?_)
      have other : name ∉ rest := fun h =>
        separate name member name (right.missing_sublist.subset h) rfl
      simp [other]
    · refine List.filter_congr (fun name member => ?_)
      have other : name ∉ missing := fun h =>
        separate name (left.missing_sublist.subset h) name member rfl
      simp [other]

/-- Resolving parameters with fresh and distinct names goes on with their names, by induction on
the parameters. -/
theorem resolveOrdered_continues (context : Context) (resolution : Resolution)
    (parameters : List Parameter) (draws : Draws)
    (distinct : (resolution.values.names ++ parameters.map Parameter.name).Nodup)
    : ∃ bound missing,
        resolution.Continues ((resolveOrdered context resolution parameters).run draws).1
          (parameters.map Parameter.name) bound missing := by
  induction parameters generalizing resolution draws with
  | nil =>
      exact ⟨[], [], (List.append_nil _).symm, (List.append_nil _).symm, rfl, .slnil⟩
  | cons parameter rest ih =>
      rw [run_resolveOrdered_cons]
      rcases (Scope.evalRead ⟨resolution.values, context⟩ parameter.expression).outcome draws
        with ⟨result, left⟩
      obtain ⟨_, namesDistinct, separate⟩ := List.nodup_append.mp distinct
      have fresh : parameter.name ∉ resolution.values.names := fun member =>
        separate _ member parameter.name (by simp) rfl
      have step := Resolution.continues_take fresh result
      obtain ⟨more, others, steps⟩ := ih (resolution.take parameter result) left
        ((step.names_sublist.append_right _).nodup (by simpa using distinct))
      exact ⟨_, _, step.trans steps (by simpa using namesDistinct)⟩

-----------------------------------------------------------------------------------------
-- The place of one parameter among the others
-----------------------------------------------------------------------------------------

/-- The outcome of a parameter that stands after `first` ones, on the draws that these leave. -/
def outcomeAfter (context : Context) (first : List Parameter) (parameter : Parameter)
    (draws : Draws)
    : Except EvalError Value × Draws :=
  let left := (resolveOrdered context {} first).run draws
  (Scope.evalRead ⟨left.1.values, context⟩ parameter.expression).outcome left.2

/-- The draws that the first parameters leave are those of the outcome of the last of them. -/
theorem outcomeAfter_snd (context : Context) (first : List Parameter) (parameter : Parameter)
    (draws : Draws)
    : (outcomeAfter context first parameter draws).2
        = ((resolveOrdered context {} (first ++ [parameter])).run draws).2 := by
  rw [run_resolveOrdered_append, run_resolveOrdered_cons]
  rfl

/-- Where one parameter stands among parameters with distinct names: what is resolved before it
are the entries of earlier names, and its own outcome alone decides about its name.
-/
structure Resolved (context : Context) (draws : Draws) (first : List Parameter)
    (parameter : Parameter) (resolution : Resolution)
    : Prop where
  earlier
    : ((resolveOrdered context {} first).run draws).1.values.entries
      = resolution.values.entries.filter
          (fun entry => entry.1 ∈ first.map Parameter.name)
  value
    : resolution.values.get? parameter.name
      = (outcomeAfter context first parameter draws).1.toOption
  absent
    : parameter.name ∈ resolution.absent
      ↔ ∃ error, (outcomeAfter context first parameter draws).1 = .error error

/-- Every parameter is resolved at its place.
Witness: the run goes on twice, with the parameter itself and with the ones after it, and each
part adds only names of its own.
-/
theorem resolved_of_split (context : Context) (draws : Draws) (first : List Parameter)
    (parameter : Parameter) (rest : List Parameter)
    (distinct : ((first ++ parameter :: rest).map Parameter.name).Nodup)
    : Resolved context draws first parameter
        ((resolveOrdered context {} (first ++ parameter :: rest)).run draws).1 := by
  rw [List.map_append, List.map_cons] at distinct
  obtain ⟨firstDistinct, lastDistinct, separate⟩ := List.nodup_append.mp distinct
  have fresh : parameter.name ∉ first.map Parameter.name := fun member =>
    separate _ member parameter.name (by simp) rfl
  have last : parameter.name ∉ rest.map Parameter.name := (List.nodup_cons.mp lastDistinct).1
  rw [run_resolveOrdered_append, run_resolveOrdered_cons]
  obtain ⟨before, lost, left⟩ := resolveOrdered_continues context {} first draws firstDistinct
  have entries : ((resolveOrdered context {} first).run draws).1.values.entries = before :=
    left.values
  have absent : ((resolveOrdered context {} first).run draws).1.absent = lost := left.absent
  have names : ((resolveOrdered context {} first).run draws).1.values.names.Sublist
      (first.map Parameter.name) :=
    left.names_sublist
  change Resolved context draws first parameter
    ((resolveOrdered context
      (((resolveOrdered context {} first).run draws).1.take parameter
        (outcomeAfter context first parameter draws).1) rest).run
      (outcomeAfter context first parameter draws).2).1
  have step := Resolution.continues_take (fun member => fresh (names.subset member))
    (outcomeAfter context first parameter draws).1
  obtain ⟨more, others, right⟩ := resolveOrdered_continues context
    (((resolveOrdered context {} first).run draws).1.take parameter
      (outcomeAfter context first parameter draws).1) rest
    (outcomeAfter context first parameter draws).2
    (((step.names_sublist.trans (names.append_right _)).append_right _).nodup
      (by simpa using distinct))
  -- Names are distinct, so that a filter by the first names takes the first part alone.
  refine ⟨?_, ?_, ?_⟩
  · have ownApart : ∀ name ∈ [parameter.name], name ∉ first.map Parameter.name := by
      intro name own
      obtain rfl := List.mem_singleton.mp own
      exact fresh
    have laterApart : ∀ name ∈ rest.map Parameter.name, name ∉ first.map Parameter.name :=
      fun name later earlier => separate name earlier name (List.mem_cons_of_mem _ later) rfl
    rw [right.values, step.values, entries, List.filter_append, List.filter_append,
      left.filter_bound_eq_self (fun _ => id), step.filter_bound_eq_nil ownApart,
      right.filter_bound_eq_nil laterApart, List.append_nil, List.append_nil]
  · have noneBefore := left.findEntry?_bound_eq_none fresh
    have noneAfter := right.findEntry?_bound_eq_none last
    rw [Table.get?, right.values, step.values, entries, findEntry?_append, findEntry?_append,
      noneBefore, noneAfter, findEntry?_boundBy]
    simp
  · have notBefore : parameter.name ∉ lost := fun member =>
      fresh (left.missing_sublist.subset member)
    have notAfter : parameter.name ∉ others := fun member =>
      last (right.missing_sublist.subset member)
    rw [right.absent, step.absent, absent, ← mem_missingBy parameter.name]
    simp [notBefore, notAfter]

end QuizVariants.Plan
