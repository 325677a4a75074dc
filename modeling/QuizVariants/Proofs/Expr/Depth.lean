import QuizVariants.Proofs.Expr.Height
import QuizVariants.Proofs.Expr.Tokens

/-! Depth of texts and height of trees.
The depth that is counted before a text is read bounds the tree that is read from it. Each level of
the grammar adds to the heights of what it nests, and each way back to the loosest level uses up a
bracket or a power, which the count never gets back. Main statement: with each chain as one level,
no tree is higher than a fixed number of levels.
-/

namespace QuizVariants.Expr

open QuizVariants.Parser
open QuizVariants.Text

variable {expression operand : Parser Expr}

-----------------------------------------------------------------------------------------
-- Heights for a room
-----------------------------------------------------------------------------------------

/-- The greatest height of an operand without sign where brackets and powers have some room left.
Behind one of them stands an operand with signs for less room, inside of six levels at most. -/
def operandHeight : Nat → Nat
  | 0 => 3
  | room + 1 => operandHeight room + room + 6

theorem three_le_operandHeight (room : Nat) : 3 ≤ operandHeight room := by
  cases room with
  | zero => exact Nat.le_refl 3
  | succ room =>
      rw [operandHeight]
      omega

/-- The greatest height of a comparison. -/
def comparisonHeight (room : Nat) : Nat :=
  operandHeight room + room + 3

/-- Expressions that are low enough to stand alone. -/
def IsLowAtom (room : Nat) (e : Expr) : Prop :=
  e.chainHeight + 2 ≤ operandHeight room

theorem isLowAtom_of_leaf {e : Expr} (leaf : e.chainHeight = 1) (room : Nat)
    : IsLowAtom room e := by
  rw [IsLowAtom, leaf]
  exact three_le_operandHeight room

/-- Behind its opening bracket, a comparison leaves two levels below an operand. -/
theorem low_of_inside {room height : Nat} (low : height ≤ comparisonHeight room)
    : height + 3 ≤ operandHeight (room + 1) := by
  rw [comparisonHeight] at low
  rw [operandHeight]
  omega

/-- What brackets stand for is one level higher than what stands in them. -/
theorem isLowAtom_of_inside {room : Nat} {e : Expr}
    (low : e.chainHeight ≤ comparisonHeight room + 1)
    : IsLowAtom (room + 1) e := by
  rw [comparisonHeight] at low
  rw [IsLowAtom, operandHeight]
  omega

-----------------------------------------------------------------------------------------
-- What stands alone
-----------------------------------------------------------------------------------------

theorem counts_numeral : Counts numeral (Within IsLowAtom) := by
  refine (keeps_ofOption leavesMute_readNumeral?).within_after fun numeral => .within_pure ?_
  refine isLowAtom_of_leaf ?_
  unfold ofNumeral
  split <;> rfl

theorem counts_stringLiteral : Counts stringLiteral (Within IsLowAtom) :=
  keeps_stringLiteral.within_after fun _ => .within_pure (isLowAtom_of_leaf rfl)

theorem chainHeight_ofName (name : String) : (ofName name).chainHeight = 1 := by
  unfold ofName
  split <;> rfl

/-- Expressions that nest each other through brackets. -/
abbrev Nests (expression : Parser Expr) : Prop :=
  Counts expression (Within fun room e => e.chainHeight ≤ comparisonHeight room)

theorem counts_argument (nested : Nests expression)
    : Counts (argument expression)
        (Within fun room argument => argument.value.chainHeight ≤ comparisonHeight room) := by
  refine .orElse ?_ (nested.within_bind fun _ => .within_pure fun _ low => low)
  refine keeps_identifier.token.within_after fun name => ?_
  refine (keeps_char rfl).within_after fun _ => (keeps_notBefore '=').within_after fun _ => ?_
  exact nested.within_bind fun _ => .within_pure fun _ low => low

theorem counts_arguments (nested : Nests expression)
    : Counts (arguments expression) (Within fun room arguments =>
        ∀ argument ∈ arguments, argument.value.chainHeight + 3 ≤ operandHeight room) := by
  refine keeps_spaces.within_after fun _ => ?_
  have lower (room : Nat) (arguments : List Argument)
      (low : ∀ argument ∈ arguments, argument.value.chainHeight ≤ comparisonHeight room)
      : ∀ argument ∈ arguments, argument.value.chainHeight + 3 ≤ operandHeight (room + 1) :=
    fun argument member => low_of_inside (low argument member)
  refine .within_open (enters_char rfl) ?_ lower
  refine .leaving_bind (counts_argument nested).commaSeparated fun _ => ?_
  refine .leaving_bind (keeps_char rfl).optional.within fun _ => ?_
  exact .leaving_close (leaves_char rfl).token_leaves fun _ _ low => low

theorem counts_callOrName (nested : Nests expression)
    : Counts (callOrName expression) (Within IsLowAtom) := by
  refine keeps_identifier.within_after fun name => ?_
  refine (counts_arguments nested).optional.within_bind fun found => ?_
  cases found with
  | none => exact .within_pure fun room _ => isLowAtom_of_leaf (chainHeight_ofName name) room
  | some arguments =>
      refine .within_pure fun room low => ?_
      have least := three_le_operandHeight room
      have above : (ofCall name arguments).chainHeight ≤ operandHeight room - 3 + 1 :=
        chainHeight_ofCall fun argument member => by
          have := low arguments rfl argument member
          omega
      rw [IsLowAtom]
      omega

theorem counts_parenthesized (nested : Nests expression)
    : Counts (parenthesized expression) (Within IsLowAtom) := by
  refine .within_open (enters_char rfl) ?_ fun room e => isLowAtom_of_inside
  refine .leaving_bind nested.commaSeparated fun items => ?_
  refine .leaving_bind (keeps_char rfl).token.optional.within fun comma => ?_
  have closes := (leaves_char (c := ')') rfl).token_leaves
  split
  · next item =>
    refine .leaving_close closes fun room _ low => ?_
    exact Nat.le_succ_of_le (low item List.mem_cons_self)
  · exact .leaving_close closes fun room _ low => chainHeight_list low

theorem counts_items (nested : Nests expression)
    : Counts (items expression) (Within fun room items =>
        ∀ item ∈ items, item.chainHeight ≤ comparisonHeight room) := by
  refine nested.commaSeparated.within_bind fun items => ?_
  exact (keeps_char rfl).token.optional.within_after fun _ => .within_pure fun _ low => low

theorem counts_listLiteral (nested : Nests expression)
    : Counts (listLiteral expression) (Within IsLowAtom) := by
  refine .within_open (enters_char rfl) ?_ fun room e => isLowAtom_of_inside
  refine .leaving_bind (counts_items nested).within_token fun items => ?_
  exact .leaving_close (leaves_char rfl) fun room low => chainHeight_list low

theorem counts_setLiteral (nested : Nests expression)
    : Counts (setLiteral expression) (Within IsLowAtom) := by
  refine .within_open (enters_char rfl) ?_ fun room e => isLowAtom_of_inside
  refine .leaving_bind (counts_items nested).within_token fun items => ?_
  exact .leaving_close (leaves_char rfl) fun room low => chainHeight_set low

theorem counts_atom (nested : Nests expression)
    : Counts (atom expression) (Within IsLowAtom) := by
  refine Counts.within_token (.choice ?_ (counts_setLiteral nested))
  simp only [List.forall_mem_cons]
  exact ⟨counts_numeral, counts_stringLiteral, counts_callOrName nested,
    counts_parenthesized nested, counts_listLiteral nested, List.forall_mem_nil _⟩

-----------------------------------------------------------------------------------------
-- Operations
-----------------------------------------------------------------------------------------

theorem counts_subscript (nested : Nests expression)
    : Counts (subscript expression) (Within fun room position =>
        position.chainHeight + 3 ≤ operandHeight room) := by
  have opens : Counts (symbol "[") (fun n _ m => Enters n m) :=
    Counts.token_enters (enters_char rfl)
  have closes : Counts (symbol "]") (fun n _ m => Leaves n m) :=
    Counts.token_leaves (leaves_char rfl)
  refine .within_open opens ?_ fun room e => low_of_inside
  exact .leaving_bind nested fun position => .leaving_close closes fun _ low => low

theorem counts_subscripted (nested : Nests expression)
    : Counts (subscripted expression) (Within fun room e =>
        e.chainHeight + 1 ≤ operandHeight room) := by
  refine (counts_atom nested).within_bind fun base => ?_
  refine (counts_subscript nested).many.within_bind fun positions => .within_pure ?_
  intro room low first
  have least := three_le_operandHeight room
  rw [IsLowAtom] at first
  have above : (positions.foldl .index base).chainHeight ≤ operandHeight room - 2 + 1 := by
    refine chainHeight_foldl_index (fun position member => ?_) ?_ (by omega)
    · have := low position member
      omega
    · split <;> omega
  omega

theorem counts_leftAssociative {op : Parser ArithmeticOp} (level : Level) {height : Nat → Nat}
    (chains : Counts op (Within fun _ op => chainLevel? (.arithmetic op) = some level))
    (nested : Counts operand (Within fun room e => e.chainHeight ≤ height room))
    : Counts (leftAssociative op operand) (Within fun room e => e.chainHeight ≤ height room + 1) :=
    by
  refine nested.within_bind fun first => ?_
  have pair : Counts (do
      let op ← op
      let right ← operand
      return (op, right)) (Within fun room pair =>
        chainLevel? (.arithmetic pair.1) = some level ∧ pair.2.chainHeight ≤ height room) :=
    chains.within_bind fun _ => nested.within_bind fun _ => .within_pure fun _ low same =>
      ⟨same, low⟩
  refine pair.many.within_bind fun pairs => .within_pure fun room others low => ?_
  refine chainHeight_foldl_binary others (fun op same => ?_) (Nat.le_succ_of_le low)
  split <;> omega

theorem counts_operator {pattern : String} (mute : pattern.toList.all isMute = true)
    {op : ArithmeticOp} {level : Level} (chains : chainLevel? (.arithmetic op) = some level)
    : Counts (operator pattern op) (Within fun _ op => chainLevel? (.arithmetic op) = some level) :=
  (keeps_symbol mute).within_after fun _ => .within_pure fun _ => chains

theorem counts_times
    : Counts times (Within fun _ op => chainLevel? (.arithmetic op) = some .product) := by
  have mark : KeepsCount (do
      char '*'
      notBefore '*') :=
    (keeps_char rfl).bind fun _ => keeps_notBefore '*'
  exact mark.token.within_after fun _ => .within_pure fun _ => rfl

theorem counts_product {height : Nat → Nat}
    (nested : Counts operand (Within fun room e => e.chainHeight ≤ height room))
    : Counts (product operand) (Within fun room e => e.chainHeight ≤ height room + 1) := by
  refine counts_leftAssociative .product ?_ nested
  exact counts_times.orElse ((counts_operator (by decide) rfl).orElse
    (counts_operator (by decide) rfl))

theorem counts_sum {height : Nat → Nat}
    (nested : Counts operand (Within fun room e => e.chainHeight ≤ height room))
    : Counts (sum operand) (Within fun room e => e.chainHeight ≤ height room + 2) := by
  refine counts_leftAssociative .sum ?_ (counts_product nested)
  exact (counts_operator (by decide) rfl).orElse (counts_operator (by decide) rfl)

theorem keeps_comparisonOp : KeepsCount comparisonOp := by
  have mark {pattern : String} {op : ComparisonOp}
      (mute : pattern.toList.all isMute = true)
      : Counts (operator pattern op) (Within fun _ _ => True) :=
    (keeps_symbol mute).within_after fun _ => .within_pure fun _ => trivial
  exact ((mark (by decide)).orElse ((mark (by decide)).orElse ((mark (by decide)).orElse
    ((mark (by decide)).orElse ((mark (by decide)).orElse (mark (by decide))))))).keeps

theorem counts_comparison {height : Nat → Nat}
    (nested : Counts operand (Within fun room e => e.chainHeight ≤ height room))
    : Counts (comparison operand) (Within fun room e => e.chainHeight ≤ height room + 3) := by
  refine (counts_sum nested).within_bind fun left => ?_
  have pair : Counts (do
      let op ← comparisonOp
      let right ← sum operand
      return (op, right)) (Within fun room pair => pair.2.chainHeight ≤ height room + 2) :=
    keeps_comparisonOp.within_after fun _ => (counts_sum nested).within_bind fun _ =>
      .within_pure fun _ low => low
  refine pair.optional.within_bind fun right => ?_
  cases right with
  | none => exact .within_pure fun _ _ low => Nat.le_succ_of_le low
  | some pair =>
      exact .within_pure fun _ second first =>
        chainHeight_binary (Nat.succ_le_succ first) (Nat.succ_le_succ (second pair rfl))

/-- An operand with signs is as much higher than one without as there are signs left to count. -/
abbrev NestsSigned (operand : Parser Expr) : Prop :=
  Counts operand (fun n e m => Keeps n m
    ∧ ∀ room, m.deepest ≤ n.brackets + n.powers + room →
      e.chainHeight ≤ operandHeight room + (room - n.signs))

/-- No more signs are counted than a text may nest. -/
theorem NestsSigned.within (nested : NestsSigned operand)
    : Counts operand (Within fun room e => e.chainHeight ≤ operandHeight room + room) := by
  refine nested.mono ?_
  rintro n e m - ⟨keeps, fits⟩
  refine ⟨keeps, fun room deep => (fits room deep).trans ?_⟩
  exact Nat.add_le_add_left (Nat.sub_le _ _) _

theorem counts_power (nested : NestsSigned operand)
    : Counts (power operand) (Within fun room e => e.chainHeight ≤ operandHeight room) := by
  have low := nested.within
  refine (counts_subscripted (counts_comparison low)).within_bind fun base => ?_
  have raised : Counts (do
      orElse (symbol "**") (symbol "^")
      operand) (Within fun room e => e.chainHeight + 6 ≤ operandHeight room) := by
    refine (counts_powerMark.bind fun _ => low).mono ?_
    rintro n e l - ⟨-, m, ⟨_, _, _⟩, deeper, ⟨_, _⟩, fits⟩
    refine ⟨⟨by omega, by omega⟩, fun room deep => ?_⟩
    obtain ⟨less, rfl⟩ : ∃ less, room = less + 1 := ⟨room - 1, by omega⟩
    have := fits less (by omega)
    rw [operandHeight]
    omega
  refine raised.optional.within_bind fun exponent => ?_
  cases exponent with
  | none =>
      refine .within_pure fun room _ first => ?_
      omega
  | some exponent =>
      refine .within_pure fun room second first => chainHeight_binary first ?_
      have := second exponent rfl
      omega

/-- Operands with signs keep to their heights, by induction on how deep they may nest. -/
theorem counts_signed (bound : Nat) : NestsSigned (signed bound) := by
  induction bound with
  | zero => exact .fail
  | succ bound ih =>
      have signs {pattern : String} (op : UnaryOp) (sign : pattern = "-" ∨ pattern = "+")
          : NestsSigned (withSign pattern op (signed bound)) := by
        have under : Counts (do return Expr.unary op (← signed bound)) (fun n e m => Keeps n m
            ∧ ∀ room, m.deepest ≤ n.brackets + n.powers + room →
              e.chainHeight ≤ operandHeight room + (room - n.signs) + 1) := by
          refine (ih.bind fun e => .pure_eq (Expr.unary op e)).mono ?_
          rintro n _ l - ⟨e, m, ⟨keeps, fits⟩, -, rfl, rfl⟩
          exact ⟨keeps, fun room deep => Nat.succ_le_succ (fits room deep)⟩
        refine ((counts_sign sign).bind fun _ => under).mono ?_
        rintro n e l - ⟨-, m, ⟨_, _, _, _⟩, deeper, ⟨_, _⟩, fits⟩
        refine ⟨⟨by omega, by omega⟩, fun room deep => ?_⟩
        have := fits room (by omega)
        omega
      refine .choice ?_ ?_
      · simp only [List.forall_mem_cons]
        exact ⟨signs .neg (.inl rfl), signs .pos (.inr rfl), List.forall_mem_nil _⟩
      · exact (counts_power ih).mono fun n e m _ ⟨keeps, fits⟩ =>
          ⟨keeps, fun room deep => Nat.le_add_right_of_le (fits room deep)⟩

-----------------------------------------------------------------------------------------
-- Whole expressions
-----------------------------------------------------------------------------------------

/-- The height that fits the greatest depth of a text. -/
def greatestHeight : Nat :=
  comparisonHeight maxNesting

/-- An expression that is read from a text is no higher than fits its greatest depth. -/
theorem chainHeight_of_parse {source : String} {e : Expr} (parsed : parse source = .ok e)
    : e.chainHeight ≤ greatestHeight := by
  unfold parse parseChars at parsed
  split at parsed
  · exact nomatch parsed
  · next flat =>
    split at parsed
    · next read =>
      obtain rfl := Except.ok.inj parsed
      have low (bound : Nat) := (counts_signed bound).within
      obtain ⟨taken, whole, counted⟩ := (counts_comparison (low _)).within_token _ _ _ read
      rw [List.append_nil] at whole
      obtain ⟨-, -, fits⟩ := counted Nesting.start Nesting.isOutside_start
      refine fits maxNesting ?_
      rw [← whole]
      have none : Nesting.start.brackets + Nesting.start.powers + maxNesting = maxNesting := rfl
      rw [none]
      exact Nat.not_lt.mp flat
    · exact nomatch parsed
    · exact nomatch parsed

/-- A sum of many ones is no higher than a nested text may be, although its tree is. -/
theorem chainHeight_parse_sum
    : parse (.ofList (chainText (.operation .add) 5000)) = .ok (chain (.operation .add) 5000)
      ∧ (chain (.operation .add) 5000).chainHeight ≤ greatestHeight
      ∧ greatestHeight < (chain (.operation .add) 5000).height := by
  have apart : Link.operation .add ≠ .operation .pow := fun same => nomatch same
  have parsed := parse_chainText apart 5000
  have high : greatestHeight < 5000 := by decide
  exact ⟨parsed, chainHeight_of_parse parsed, high.trans (lt_height_chain _ 5000)⟩

example : greatestHeight = 2470 := by decide

end QuizVariants.Expr
