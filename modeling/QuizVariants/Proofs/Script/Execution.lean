import Mathlib.Data.List.Induction
import QuizVariants.Proofs.Draws.Runs
import QuizVariants.Proofs.Expr.Bounds
import QuizVariants.Proofs.Script.Assignments

/-! Runs of scripts.
A script of assignments is a fold: each one evaluates its expression after the bindings of those
before it and binds its name, and the first one that has no value ends the run with its line.
-/

namespace QuizVariants.Script

open QuizVariants.Text

/-- The text of a script: lines of entries. -/
def sourceOf (script : List (List Entry)) : String :=
  .ofList (joinWith ['\n'] (script.map lineOf))

def assignmentsOf (entries : List Entry) : List Assignment :=
  entries.filterMap Entry.assignment?

/-- The assignments of a line with its number, which is counted from one. -/
def numberedAssignments (index : Nat) (entries : List Entry) : List (Nat × Assignment) :=
  (assignmentsOf entries).map (index + 1, ·)

/-- The assignments of a script with the numbers of their lines. -/
def assignments (script : List (List Entry)) : List (Nat × Assignment) :=
  (script.mapIdx numberedAssignments).flatten

/-- An assignment as the statement of a line. -/
def statementOf (numbered : Nat × Assignment) : Statement :=
  ⟨numbered.1, numbered.2.text⟩

/-- Evaluates an expression without its sigils after earlier bindings, and binds the name. -/
def define (context : Context) (bindings : Table Value) (numbered : Nat × Assignment)
    : ExceptT ScriptError Random (Table Value) := do
  let value ← (Scope.evaluate ⟨bindings, context⟩ (.ofList numbered.2.expression.plain)).adapt
    (ScriptError.failed numbered.1)
  return bindings.insert (.ofList numbered.2.name) value

-----------------------------------------------------------------------------------------
-- The statements of a script
-----------------------------------------------------------------------------------------

namespace Entry

theorem undivided_text (entry : Entry) : Undivided entry.text := by
  cases entry with
  | blank gap => exact gap.undivided
  | assignment before written behind =>
      exact before.undivided.append (written.undivided_text.append behind.undivided)

theorem oneLine_text (entry : Entry) : '\n' ∉ entry.text := by
  cases entry with
  | blank gap => exact gap.line
  | assignment before written behind =>
      simp [text, before.line, written.oneLine_text, behind.line]

end Entry

/-- The entries of a line without their blanks are its assignments, by induction on them. -/
theorem filter_trim_texts (entries : List Entry)
    : ((entries.map Entry.text).map trim).filter (fun statement => !statement.isEmpty)
        = (assignmentsOf entries).map Assignment.text := by
  induction entries with
  | nil => rfl
  | cons entry rest ih =>
      cases entry with
      | blank gap =>
          have none : trim (Entry.text (.blank gap)) = [] := trim_gap gap
          have others : assignmentsOf (.blank gap :: rest) = assignmentsOf rest :=
            List.filterMap_cons_none rfl
          rw [others, ← ih]
          simp [none]
      | assignment before written behind =>
          have trimmed : trim (Entry.text (.assignment before written behind)) = written.text :=
            trim_between_gaps before behind written.trimmed_text written.text_ne_nil
          have others
              : assignmentsOf (.assignment before written behind :: rest)
                = written :: assignmentsOf rest :=
            List.filterMap_cons_some rfl
          rw [others, List.map_cons (f := Assignment.text), ← ih]
          simp [trimmed, written.text_ne_nil]

/-- The statements of a line are the texts of its assignments. -/
theorem statements_lineOf (entries : List Entry)
    : statements (lineOf entries) = (assignmentsOf entries).map Assignment.text := by
  cases entries with
  | nil => rfl
  | cons entry rest =>
      have parts
          : statementsFrom none [] (joinWith [';'] ((entry :: rest).map Entry.text))
            = (entry :: rest).map Entry.text :=
        statementsFrom_joinWith (by simp)
          (List.forall_mem_map.mpr (fun entry _ => entry.undivided_text))
      rw [statements, lineOf, parts, filter_trim_texts]

/-- No line ends within the entries of a line. -/
theorem oneLine_lineOf (entries : List Entry) : '\n' ∉ lineOf entries := by
  intro member
  rcases mem_joinWith member with separator | ⟨part, found, inside⟩
  · exact absurd separator (by decide)
  · obtain ⟨entry, -, rfl⟩ := List.mem_map.mp found
    exact entry.oneLine_text inside

/-- The statements of a line with its number. -/
def numberedStatements (index : Nat) (line : List Char) : List Statement :=
  (statements line).map (⟨index + 1, ·⟩)

theorem numberedStatements_lineOf (index : Nat) (entries : List Entry)
    : numberedStatements index (lineOf entries)
        = (numberedAssignments index entries).map statementOf := by
  rw [numberedStatements, numberedAssignments, statements_lineOf, List.map_map, List.map_map]
  rfl

/-- The lines before the last one may end with a carriage return. -/
theorem mapIdx_numberedStatements (front : List (List Entry))
    : ((front.map lineOf).map withoutReturn).mapIdx numberedStatements
        = (front.mapIdx numberedAssignments).map (List.map statementOf) := by
  refine List.ext_getElem (by simp) (fun index _ _ => ?_)
  simp only [List.getElem_mapIdx, List.getElem_map]
  rw [numberedStatements, statements_withoutReturn, ← numberedStatements,
    numberedStatements_lineOf]

/-- Statements are numbered by their lines. -/
theorem ofSource_eq (source : String)
    : ofSource source = ((lines source.toList).mapIdx numberedStatements).flatten := by
  rw [ofSource, numbered, List.flatMap_def]
  refine congrArg List.flatten (List.ext_getElem (by simp) (fun index _ _ => ?_))
  simp only [List.getElem_map, List.getElem_mapIdx]
  rfl

/-- The statements of a script are the texts of its assignments, each with its line. An empty last
line is no line of the source, but it has no statements either. -/
theorem ofSource_sourceOf (script : List (List Entry))
    : ofSource (sourceOf script) = (assignments script).map statementOf := by
  rw [ofSource_eq, sourceOf, String.toList_ofList, assignments, List.map_flatten]
  rcases List.eq_nil_or_concat script with rfl | ⟨front, last, rfl⟩
  · rfl
  · have plain : ∀ line ∈ front.map lineOf, '\n' ∉ line :=
      List.forall_mem_map.mpr (fun entries _ => oneLine_lineOf entries)
    have ending (index : Nat)
        : ((if (lineOf last).isEmpty then [] else [lineOf last]).mapIdx
            (fun place => numberedStatements (place + index))).flatten
          = numberedStatements index (lineOf last) := by
      split
      · next empty =>
        rw [List.isEmpty_iff.mp empty]
        rfl
      · simp
    rw [List.concat_eq_append, List.map_append, List.map_singleton,
      lines_joinWith_of_plain plain (oneLine_lineOf last), List.mapIdx_append, List.flatten_append,
      mapIdx_numberedStatements]
    simp only [List.length_map, ending, numberedStatements_lineOf]
    simp [List.mapIdx_append]

-----------------------------------------------------------------------------------------
-- The run of a script
-----------------------------------------------------------------------------------------

/-- A statement that is an assignment defines a name before the others run. -/
theorem runFrom_assignment (context : Context) (bindings : Table Value)
    (numbered : Nat × Assignment) (rest : List Statement)
    : runFrom context bindings (statementOf numbered :: rest)
        = define context bindings numbered >>= fun bindings => runFrom context bindings rest := by
  have spaces
      : Scope.evaluate ⟨bindings, context⟩
          (.ofList (numbered.2.space.1.text ++ numbered.2.expression.plain))
        = Scope.evaluate ⟨bindings, context⟩ (.ofList numbered.2.expression.plain) := by
    rw [Scope.evaluate, Expr.parse_gap numbered.2.space.2, ← Scope.evaluate]
  rw [runFrom, statementOf, numbered.2.assignment?_text]
  simp only [define, spaces]
  generalize Scope.evaluate ⟨bindings, context⟩ (.ofList numbered.2.expression.plain) = evaluation
  funext draws
  have lifted : (liftM evaluation.run : ExceptT ScriptError Random _).run.run draws
      = (.ok (evaluation.outcome draws).1, (evaluation.outcome draws).2) :=
    rfl
  have adapted : (evaluation.adapt (ScriptError.failed numbered.1)).run.run draws
      = ((evaluation.outcome draws).1.mapError (.failed numbered.1),
        (evaluation.outcome draws).2) :=
    rfl
  refine (Random.run_bind_except _ _ draws).trans ?_
  refine Eq.trans ?_ (Random.run_bind_except _ _ draws).symm
  rw [lifted, Random.run_bind_except, adapted]
  rcases evaluation.outcome draws with ⟨fault | value, left⟩ <;> rfl

/-- A run of statements that are assignments defines one after the other, by induction on them. -/
theorem runFrom_eq_foldlM (context : Context) (bindings : Table Value)
    (numbered : List (Nat × Assignment))
    : runFrom context bindings (numbered.map statementOf)
        = numbered.foldlM (define context) bindings := by
  induction numbered generalizing bindings with
  | nil => rfl
  | cons first rest ih =>
      rw [List.map_cons, runFrom_assignment, List.foldlM_cons]
      exact congrArg _ (funext ih)

-----------------------------------------------------------------------------------------
-- The outcome of a run
-----------------------------------------------------------------------------------------

/-- What a computation of a script gives on draws, and the draws that it leaves. -/
def outcome (action : ExceptT ScriptError Random α) (draws : Draws)
    : Except ScriptError α × Draws :=
  action.run.run draws

/-- The name that an assignment binds. -/
def boundName (numbered : Nat × Assignment) : String :=
  .ofList numbered.2.name

/-- What the expression of an assignment gives after earlier bindings. -/
def evaluated (context : Context) (bindings : Table Value) (numbered : Nat × Assignment)
    (draws : Draws)
    : Except EvalError Value × Draws :=
  (Scope.evaluate ⟨bindings, context⟩ (.ofList numbered.2.expression.plain)).outcome draws

/-- An assignment binds the value of its expression, or fails with its line. -/
theorem outcome_define (context : Context) (bindings : Table Value) (numbered : Nat × Assignment)
    (draws : Draws)
    : outcome (define context bindings numbered) draws
        = match evaluated context bindings numbered draws with
          | (.ok value, rest) => (.ok (bindings.insert (boundName numbered) value), rest)
          | (.error fault, rest) => (.error (.failed numbered.1 fault), rest) := by
  have adapted
      : ((Scope.evaluate ⟨bindings, context⟩ (.ofList numbered.2.expression.plain)).adapt
          (ScriptError.failed numbered.1)).run.run draws
        = ((evaluated context bindings numbered draws).1.mapError (.failed numbered.1),
          (evaluated context bindings numbered draws).2) :=
    rfl
  rw [outcome, define, Random.run_bind_except, adapted]
  rcases evaluated context bindings numbered draws with ⟨fault | value, rest⟩ <;> rfl

theorem outcome_bind (action : ExceptT ScriptError Random α)
    (next : α → ExceptT ScriptError Random β) (draws : Draws)
    : outcome (action >>= next) draws
        = match outcome action draws with
          | (.ok value, rest) => outcome (next value) rest
          | (.error fault, rest) => (.error fault, rest) := by
  rw [outcome, Random.run_bind_except, ← outcome]
  rcases outcome action draws with ⟨fault | value, rest⟩ <;> rfl

/-- A run of assignments ends at the first one if its expression has no value, and else goes on with
the name bound. -/
theorem outcome_foldlM_cons (context : Context) (bindings : Table Value)
    (first : Nat × Assignment) (rest : List (Nat × Assignment)) (draws : Draws)
    : outcome ((first :: rest).foldlM (define context) bindings) draws
        = match evaluated context bindings first draws with
          | (.ok value, between) =>
            outcome (rest.foldlM (define context) (bindings.insert (boundName first) value)) between
          | (.error fault, between) => (.error (.failed first.1 fault), between) := by
  rw [List.foldlM_cons, outcome_bind, outcome_define]
  rcases evaluated context bindings first draws with ⟨fault | value, between⟩ <;> rfl

/-- A run that fails does so at its first assignment without a value, by induction on the
assignments. -/
theorem exists_first_failure {context : Context} {bindings : Table Value} {draws left : Draws}
    {error : ScriptError} {numbered : List (Nat × Assignment)}
    (failed : outcome (numbered.foldlM (define context) bindings) draws = (.error error, left))
    : ∃ front first back reached between fault,
        numbered = front ++ first :: back
        ∧ outcome (front.foldlM (define context) bindings) draws = (.ok reached, between)
        ∧ evaluated context reached first between = (.error fault, left)
        ∧ error = .failed first.1 fault := by
  induction numbered generalizing bindings draws with
  | nil => exact nomatch failed
  | cons first rest ih =>
      rw [outcome_foldlM_cons] at failed
      rcases value : evaluated context bindings first draws with ⟨fault | value, between⟩
      · rw [value] at failed
        obtain ⟨same, rfl⟩ := Prod.mk.inj failed
        exact ⟨[], first, rest, bindings, draws, fault, rfl, rfl, value,
          (Except.error.inj same).symm⟩
      · rw [value] at failed
        obtain ⟨front, last, back, reached, later, fault, rfl, before, without, same⟩ := ih failed
        refine ⟨first :: front, last, back, reached, later, fault, rfl, ?_, without, same⟩
        rw [outcome_foldlM_cons, value]
        exact before

/-- One more name is new or bound already. -/
theorem eraseDups_append_singleton (names : List String) (name : String)
    : (names ++ [name]).eraseDups
        = if name ∈ names.eraseDups then names.eraseDups else names.eraseDups ++ [name] := by
  rw [List.eraseDups_append]
  by_cases bound : name ∈ names
  · simp [List.removeAll, bound]
  · simp [List.removeAll, bound, List.eraseDups_cons]

/-- The names of a run without failure are those of its assignments, each at its first place; by
induction on the assignments from the last one. -/
theorem names_of_foldlM {context : Context} {draws left : Draws} {bindings : Table Value}
    {numbered : List (Nat × Assignment)}
    (ran : outcome (numbered.foldlM (define context) .empty) draws = (.ok bindings, left))
    : bindings.names = (numbered.map boundName).eraseDups := by
  induction numbered using List.reverseRecOn generalizing bindings left with
  | nil =>
      obtain ⟨same, -⟩ := Prod.mk.inj ran
      exact Except.ok.inj same ▸ rfl
  | append_singleton front last ih =>
      rw [List.foldlM_append, outcome_bind] at ran
      rcases before : outcome (front.foldlM (define context) .empty) draws
        with ⟨fault | reached, between⟩
      · rw [before] at ran
        exact nomatch ran
      · rw [before] at ran
        change outcome ([last].foldlM (define context) reached) between = _ at ran
        rw [outcome_foldlM_cons] at ran
        rcases value : evaluated context reached last between with ⟨fault | value, left⟩
        · rw [value] at ran
          exact nomatch ran
        · rw [value] at ran
          obtain ⟨same, -⟩ := Prod.mk.inj ran
          rw [← Except.ok.inj same, Table.names_insert, ih before, List.map_append,
            List.map_singleton, eraseDups_append_singleton]

-----------------------------------------------------------------------------------------
-- The result
-----------------------------------------------------------------------------------------

/-- A script of assignments is the fold of their definitions.
The statements that are run are the assignments, however they are written and wherever semicolons
and line ends stand: each expression is evaluated without its sigils after the bindings made so far,
and its value is bound to the name. Without a failure the names are bound in the order in which they
first occur. A failure is that of the first assignment without a value, with the number of its line,
and leaves no bindings.
-/
theorem run_sourceOf (context : Context) (script : List (List Entry))
    : run context (sourceOf script) = (assignments script).foldlM (define context) .empty
      ∧ (∀ draws bindings left,
        outcome (run context (sourceOf script)) draws = (.ok bindings, left)
        → bindings.names = ((assignments script).map boundName).eraseDups)
      ∧ (∀ draws error left,
        outcome (run context (sourceOf script)) draws = (.error error, left)
        → ∃ front first back reached between fault,
            assignments script = front ++ first :: back
            ∧ outcome (front.foldlM (define context) .empty) draws = (.ok reached, between)
            ∧ evaluated context reached first between = (.error fault, left)
            ∧ error = .failed first.1 fault) := by
  have fold
      : run context (sourceOf script) = (assignments script).foldlM (define context) .empty := by
    rw [run, ofSource_sourceOf, runFrom_eq_foldlM]
  rw [fold]
  exact ⟨rfl, fun _ _ _ => names_of_foldlM, fun _ _ _ => exists_first_failure⟩

/-- The expression `1`. -/
def Expression.one : Expression where
  text := ['1']
  plain := ['1']
  written := .letter rfl .nil
  shows := ⟨'1', rfl, rfl⟩
  single := by decide

/-- The expression `$my`. -/
def Expression.my : Expression where
  text := ['$', 'm', 'y']
  plain := ['m', 'y']
  written := .sigil rfl (.letter rfl (.letter rfl .nil))
  shows := ⟨'y', rfl, rfl⟩
  single := by decide

/-- One space. -/
def Gap.space : { gap : Gap // Parser.IsGap gap.text } :=
  ⟨⟨[' '], List.forall_mem_singleton.mpr rfl, by decide⟩, List.forall_mem_singleton.mpr rfl⟩

/-- A script in which the word that declares names is a name. -/
def shadowing : List (List Entry) :=
  let first : Assignment := ⟨none, false, ['m', 'y'], rfl, Gap.space.1, Gap.space, .one⟩
  let second : Assignment :=
    ⟨some ⟨Gap.space.1, by decide⟩, true, ['m', 'y'], rfl, Gap.space.1, Gap.space, .my⟩
  [[.assignment Gap.space.1 first Gap.space.1],
    [.assignment Gap.space.1 second Gap.space.1, .blank Gap.space.1]]

example
    : sourceOf shadowing = " my = 1 \n my $my = $my ; "
      ∧ (assignments shadowing).map boundName = ["my", "my"] := by
  decide

end QuizVariants.Script
