import QuizVariants.Variant.Plan

/-! Declared parameters.
Each declaration is read on its own, knowing only the names that are declared after it.
-/

namespace QuizVariants.Plan

/-- What is read of an expression whose parameter stands before `later` parameters. -/
def readExpression (name : String) (literal : Literal) (later : List String)
    : Except EvalError Expr :=
  (Expr.parse literal.expression).bind (checkReferences name (name :: later))

theorem readParameters_cons (name : String) (literal : Literal) (rest : List (String × Literal))
    : readParameters ((name, literal) :: rest)
        = ⟨name, literal.expression, readExpression name literal (rest.map Prod.fst)⟩
          :: readParameters rest :=
  rfl

/-- Reading keeps the names of the parameters, by induction on the declarations. -/
theorem names_readParameters (entries : List (String × Literal))
    : (readParameters entries).map Parameter.name = entries.map Prod.fst := by
  induction entries with
  | nil => rfl
  | cons entry rest ih => simp [readParameters, ih]

/-- The last declarations are read as if they stood alone, by induction on the first ones. -/
theorem readParameters_append (before after : List (String × Literal))
    : ∃ earlier,
        earlier.map Parameter.name = before.map Prod.fst
        ∧ readParameters (before ++ after) = earlier ++ readParameters after := by
  induction before with
  | nil => exact ⟨[], rfl, rfl⟩
  | cons entry rest ih =>
      obtain ⟨name, literal⟩ := entry
      obtain ⟨earlier, names, read⟩ := ih
      rw [List.cons_append, readParameters_cons, read]
      exact ⟨_ :: earlier, by simp [names], rfl⟩

/-- What is read of a parameter is read of a declaration, by induction on the declarations. -/
theorem exists_of_mem_readParameters {entries : List (String × Literal)} {parameter : Parameter}
    (member : parameter ∈ readParameters entries)
    : ∃ name literal later,
        (name, literal) ∈ entries ∧ parameter.expression = readExpression name literal later := by
  induction entries with
  | nil => exact nomatch member
  | cons entry rest ih =>
      obtain ⟨name, literal⟩ := entry
      rw [readParameters_cons] at member
      rcases List.mem_cons.mp member with rfl | member
      · exact ⟨name, literal, rest.map Prod.fst, List.mem_cons_self, rfl⟩
      · obtain ⟨name, literal, later, inside, read⟩ := ih member
        exact ⟨name, literal, later, List.mem_cons_of_mem _ inside, read⟩

/-- A reference to a name that is not declared before is an error; witness: the first one. -/
theorem checkReferences_eq_error {name other : String} {undeclared : List String} {e : Expr}
    (member : other ∈ undeclared) (free : other ∈ e.freeNames)
    : ∃ error, checkReferences name undeclared e = .error error := by
  unfold checkReferences
  split
  · next referenced _ => exact ⟨.forwardReference name referenced, rfl⟩
  · next missing =>
    have refused := List.find?_eq_none.mp missing other free
    exact absurd (List.contains_iff_mem.mpr member) refused

theorem eq_of_checkReferences {name : String} {undeclared : List String} {e checked : Expr}
    (h : checkReferences name undeclared e = .ok checked)
    : checked = e := by
  unfold checkReferences at h
  split at h
  · exact nomatch h
  · exact (Except.ok.inj h).symm

/-- A forward reference or a reference of a parameter to itself is an error of reading. -/
theorem readExpression_eq_error {name other : String} {literal : Literal} {later : List String}
    {e : Expr} (parsed : Expr.parse literal.expression = .ok e)
    (undeclared : other ∈ name :: later) (free : other ∈ e.freeNames)
    : ∃ error, readExpression name literal later = .error error := by
  rw [readExpression, parsed]
  exact checkReferences_eq_error undeclared free

theorem readExpression_eq_ok {name : String} {literal : Literal} {later : List String} {e : Expr}
    (parsed : Expr.parse literal.expression = .ok e)
    (declared : ∀ free ∈ e.freeNames, free ∉ name :: later)
    : readExpression name literal later = .ok e := by
  have none : e.freeNames.find? (fun free => (name :: later).contains free) = none :=
    List.find?_eq_none.mpr (fun free member refused =>
      declared free member (List.contains_iff_mem.mp refused))
  rw [readExpression, parsed]
  change checkReferences name (name :: later) e = .ok e
  rw [checkReferences, none]

/-- What is read of an expression is the tree of its text. -/
theorem parse_of_readExpression {name : String} {literal : Literal} {later : List String}
    {e : Expr} (read : readExpression name literal later = .ok e)
    : Expr.parse literal.expression = .ok e := by
  unfold readExpression at read
  cases parsed : Expr.parse literal.expression with
  | error error =>
      rw [parsed] at read
      exact nomatch read
  | ok tree =>
      rw [parsed] at read
      rw [eq_of_checkReferences read]

end QuizVariants.Plan
