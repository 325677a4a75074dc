import QuizVariants.Proofs.Expr.Identifier

/-! Variables of expressions.
Every name that a parsed expression reads is an identifier that is no truth value. Each level of
the grammar gives such trees as long as the levels that it nests do.
-/

namespace QuizVariants.Expr

open QuizVariants.Parser
open QuizVariants.Text

-----------------------------------------------------------------------------------------
-- Trees whose names can stand for variables
-----------------------------------------------------------------------------------------

/-- A tree that reads variables alone. -/
def IsReadable (e : Expr) : Prop :=
  ∀ name ∈ e.mentioned, IsVariable name

/-- An argument that reads variables alone. -/
def Argument.IsReadable : Argument → Prop
  | .positional value => value.IsReadable
  | .keyword _ value => value.IsReadable

/-- The names of items are those of each item, by induction on the items. -/
theorem mem_mentionedItems {name : String} {items : List Expr}
    : name ∈ mentionedItems items ↔ ∃ item ∈ items, name ∈ item.mentioned := by
  induction items with
  | nil => simp [mentionedItems]
  | cons item items ih => simp [mentionedItems, ih]

theorem mem_mentionedKeywords {name : String} {keywords : List (String × Expr)}
    : name ∈ mentionedKeywords keywords ↔ ∃ entry ∈ keywords, name ∈ entry.2.mentioned := by
  induction keywords with
  | nil => simp [mentionedKeywords]
  | cons entry keywords ih =>
      obtain ⟨key, value⟩ := entry
      simp [mentionedKeywords, ih]

theorem isReadable_list {items : List Expr} (h : ∀ item ∈ items, item.IsReadable)
    : (Expr.list items).IsReadable := by
  intro name mentioned
  obtain ⟨item, member, inside⟩ := mem_mentionedItems.mp mentioned
  exact h item member name inside

theorem isReadable_set {items : List Expr} (h : ∀ item ∈ items, item.IsReadable)
    : (Expr.set items).IsReadable :=
  isReadable_list h

theorem isReadable_index {target position : Expr} (first : target.IsReadable)
    (second : position.IsReadable)
    : (Expr.index target position).IsReadable := by
  intro name mentioned
  rcases List.mem_append.mp mentioned with inside | inside
  · exact first name inside
  · exact second name inside

theorem isReadable_binary {op : BinaryOp} {left right : Expr} (first : left.IsReadable)
    (second : right.IsReadable)
    : (Expr.binary op left right).IsReadable :=
  isReadable_index first second

/-- A name without arguments is a variable, unless it is a truth value. -/
theorem isReadable_ofName {name : String} (named : isName name.toList = true)
    : (ofName name).IsReadable := by
  by_cases truth : name ∈ ["True", "true", "False", "false"]
  · simp only [List.mem_cons, List.not_mem_nil, or_false] at truth
    rcases truth with rfl | rfl | rfl | rfl <;> exact List.forall_mem_nil _
  · rw [ofName_of_notTruth truth]
    exact List.forall_mem_singleton.mpr ⟨named, truth⟩

/-- A call reads what its arguments read; its own name is no variable. -/
theorem isReadable_ofCall {function : String} {arguments : List Argument}
    (h : ∀ argument ∈ arguments, argument.IsReadable)
    : (ofCall function arguments).IsReadable := by
  intro name mentioned
  rcases List.mem_append.mp mentioned with inside | inside
  · obtain ⟨value, member, inside⟩ := mem_mentionedItems.mp inside
    obtain ⟨argument, given, same⟩ := List.mem_filterMap.mp member
    cases argument with
    | positional value =>
        cases same
        exact h _ given name inside
    | keyword key value => cases same
  · obtain ⟨entry, member, inside⟩ := mem_mentionedKeywords.mp inside
    obtain ⟨argument, given, same⟩ := List.mem_filterMap.mp member
    cases argument with
    | positional value => cases same
    | keyword key value =>
        cases same
        exact h _ given name inside

/-- Trees that are built from the left up read variables alone if each step does, by induction on
the steps. -/
theorem isReadable_foldl {items : List α} {fit : α → Prop} {extend : Expr → α → Expr}
    (step : ∀ left item, left.IsReadable → fit item → (extend left item).IsReadable)
    (others : ∀ item ∈ items, fit item) {first : Expr} (start : first.IsReadable)
    : (items.foldl extend first).IsReadable := by
  induction items generalizing first with
  | nil => exact start
  | cons item items ih =>
      obtain ⟨next, later⟩ := List.forall_mem_cons.mp others
      exact ih later (step first item start next)

-----------------------------------------------------------------------------------------
-- What stands alone
-----------------------------------------------------------------------------------------

variable {expression operand : Parser Expr}

theorem gives_ofOption {read : List Char → Option (α × List Char)} {good : α → Prop}
    (h : ∀ text value rest, read text = some (value, rest) → good value)
    : Gives (ofOption read) good := by
  intro text value rest given
  unfold ofOption at given
  split at given
  · next found =>
    cases given
    exact h text value rest found
  · cases given

theorem gives_numeral : Gives numeral IsReadable := by
  refine .after (fun numeral => .pure ?_)
  unfold ofNumeral
  split <;> exact List.forall_mem_nil _

theorem gives_stringLiteral : Gives stringLiteral IsReadable :=
  .after (fun _ => .pure (List.forall_mem_nil _))

theorem isName_of_name? {text name rest : List Char} (h : name? text = some (name, rest))
    : isName name = true := by
  cases text with
  | nil => cases h
  | cons c text =>
      simp only [name?] at h
      split at h
      · next starts =>
        cases h
        rw [isName, starts, Bool.true_and, List.all_takeWhile]
      · cases h

theorem gives_identifier : Gives identifier (fun name => isName name.toList = true) := by
  refine (gives_ofOption (fun _ _ _ => isName_of_name?)).bind (fun name named => .pure ?_)
  rwa [String.toList_ofList]

theorem gives_argument (nested : Gives expression IsReadable)
    : Gives (argument expression) Argument.IsReadable := by
  refine .orElse ?_ (nested.bind (fun _ readable => .pure readable))
  refine .after (fun name => .after (fun _ => .after (fun _ => ?_)))
  exact nested.bind (fun _ readable => .pure readable)

theorem gives_arguments (nested : Gives expression IsReadable)
    : Gives (arguments expression) (fun found => ∀ argument ∈ found, argument.IsReadable) := by
  refine .after (fun _ => .after (fun _ => ?_))
  refine (gives_argument nested).commaSeparated.bind (fun _ readable => ?_)
  exact .after (fun _ => .after (fun _ => .pure readable))

theorem gives_callOrName (nested : Gives expression IsReadable)
    : Gives (callOrName expression) IsReadable := by
  refine gives_identifier.bind (fun name named => ?_)
  refine (gives_arguments nested).optional.bind (fun found readable => ?_)
  cases found with
  | none => exact .pure (isReadable_ofName named)
  | some arguments => exact .pure (isReadable_ofCall (readable arguments rfl))

theorem gives_parenthesized (nested : Gives expression IsReadable)
    : Gives (parenthesized expression) IsReadable := by
  refine .after (fun _ => nested.commaSeparated.bind (fun items readable => ?_))
  refine .after (fun comma => .after (fun _ => ?_))
  split
  · next item => exact .pure (readable item List.mem_cons_self)
  · exact .pure (isReadable_list readable)

theorem gives_items (nested : Gives expression IsReadable)
    : Gives (items expression) (fun items => ∀ item ∈ items, item.IsReadable) :=
  nested.commaSeparated.bind (fun _ readable => .after (fun _ => .pure readable))

theorem gives_atom (nested : Gives expression IsReadable)
    : Gives (atom expression) IsReadable := by
  refine .token (.choice ?_ ?_)
  · simp only [List.forall_mem_cons]
    refine ⟨gives_numeral, gives_stringLiteral, gives_callOrName nested,
      gives_parenthesized nested, ?_, List.forall_mem_nil _⟩
    refine .after (fun _ => (gives_items nested).token.bind (fun _ readable => ?_))
    exact .after (fun _ => .pure (isReadable_list readable))
  · refine .after (fun _ => (gives_items nested).token.bind (fun _ readable => ?_))
    exact .after (fun _ => .pure (isReadable_set readable))

-----------------------------------------------------------------------------------------
-- Operations
-----------------------------------------------------------------------------------------

theorem gives_subscript (nested : Gives expression IsReadable)
    : Gives (subscript expression) IsReadable :=
  .after (fun _ => nested.bind (fun _ readable => .after (fun _ => .pure readable)))

theorem gives_subscripted (nested : Gives expression IsReadable)
    : Gives (subscripted expression) IsReadable := by
  refine (gives_atom nested).bind (fun base first => ?_)
  refine (gives_subscript nested).many.bind (fun positions others => .pure ?_)
  exact isReadable_foldl (fun _ _ => isReadable_index) others first

theorem gives_leftAssociative (op : Parser ArithmeticOp) (nested : Gives operand IsReadable)
    : Gives (leftAssociative op operand) IsReadable := by
  refine nested.bind (fun first start => ?_)
  have pair : Gives (do
      let op ← op
      let right ← operand
      return (op, right)) (fun pair => pair.2.IsReadable) :=
    .after (fun _ => nested.bind (fun _ readable => .pure readable))
  exact pair.many.bind (fun pairs others =>
    .pure (isReadable_foldl (fun _ _ => isReadable_binary) others start))

theorem gives_sum (nested : Gives operand IsReadable) : Gives (sum operand) IsReadable :=
  gives_leftAssociative _ (gives_leftAssociative _ nested)

theorem gives_comparison (nested : Gives operand IsReadable)
    : Gives (comparison operand) IsReadable := by
  refine (gives_sum nested).bind (fun left first => ?_)
  have pair : Gives (do
      let op ← comparisonOp
      let right ← sum operand
      return (op, right)) (fun pair => pair.2.IsReadable) :=
    .after (fun _ => (gives_sum nested).bind (fun _ readable => .pure readable))
  refine pair.optional.bind (fun right second => ?_)
  cases right with
  | none => exact .pure first
  | some pair => exact .pure (isReadable_binary first (second pair rfl))

theorem gives_power (nested : Gives operand IsReadable) : Gives (power operand) IsReadable := by
  refine (gives_subscripted (gives_comparison nested)).bind (fun base first => ?_)
  have raised : Gives (do
      orElse (symbol "**") (symbol "^")
      operand) IsReadable :=
    .after (fun _ => nested)
  refine raised.optional.bind (fun exponent second => ?_)
  cases exponent with
  | none => exact .pure first
  | some exponent => exact .pure (isReadable_binary first (second exponent rfl))

/-- Signed operands nest each other, by induction on how deep they may. -/
theorem gives_signed (bound : Nat) : Gives (signed bound) IsReadable := by
  induction bound with
  | zero => exact .fail
  | succ bound ih =>
      have signs (pattern : String) (op : UnaryOp)
          : Gives (withSign pattern op (signed bound)) IsReadable :=
        .after (fun _ => ih.bind (fun _ readable => .pure readable))
      refine .choice ?_ (gives_power ih)
      simp only [List.forall_mem_cons]
      exact ⟨signs "-" .neg, signs "+" .pos, List.forall_mem_nil _⟩

/-- A parsed expression reads variables alone. -/
theorem isVariable_of_parse {source : String} {e : Expr} (parsed : parse source = .ok e)
    {name : String} (free : name ∈ e.freeNames)
    : IsVariable name := by
  have readable : e.IsReadable := by
    unfold parse parseChars at parsed
    split at parsed
    · cases parsed
    · split at parsed
      · next read =>
        obtain rfl := Except.ok.inj parsed
        exact (gives_comparison (gives_signed _)).token _ _ _ read
      · cases parsed
      · cases parsed
  exact readable name (mem_freeNames.mp free)

end QuizVariants.Expr
