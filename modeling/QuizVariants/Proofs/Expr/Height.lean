import QuizVariants.Proofs.Expr.Completeness

/-! Heights of expressions.
A tree is as high as a recursion over it is deep. Operators of one level that stand in a row, and
subscripts in a row, are read by a loop and pile up on the left without any nesting of the text, so
heights are also taken with such a chain as one level. Main statement: every kind of chain makes
trees of any height.
-/

namespace QuizVariants.Expr

open QuizVariants.Parser
open QuizVariants.Text

-----------------------------------------------------------------------------------------
-- Chains
-----------------------------------------------------------------------------------------

/-- The level on which an operator chains with others, if it does. -/
def chainLevel? : BinaryOp → Option Level
  | .arithmetic .add => some .sum
  | .arithmetic .sub => some .sum
  | .arithmetic .mul => some .product
  | .arithmetic .div => some .product
  | .arithmetic .rem => some .product
  | _ => none

/-- Whether an operator goes on with the chain that its left operand ends with. -/
def continuesChain (op : BinaryOp) : Expr → Bool
  | .binary other _ _ => (chainLevel? op).isSome && chainLevel? op == chainLevel? other
  | _ => false

def isIndex : Expr → Bool
  | .index _ _ => true
  | _ => false

mutual

/-- The height of a tree, where with `chains` whatever goes on with a chain adds nothing. -/
def heightWith (chains : Bool) : Expr → Nat
  | .number _ => 1
  | .float _ => 1
  | .string _ => 1
  | .bool _ => 1
  | .ident _ => 1
  | .list items => heightOfItems chains items + 1
  | .set items => heightOfItems chains items + 1
  | .unary _ operand => heightWith chains operand + 1
  | .binary op left right =>
    max (heightWith chains left + if chains && continuesChain op left then 0 else 1)
      (heightWith chains right + 1)
  | .call _ positional keywords =>
    max (heightOfItems chains positional) (heightOfKeywords chains keywords) + 1
  | .index target position =>
    max (heightWith chains target + if chains && isIndex target then 0 else 1)
      (heightWith chains position + 1)

def heightOfItems (chains : Bool) : List Expr → Nat
  | [] => 0
  | item :: items => max (heightWith chains item) (heightOfItems chains items)

def heightOfKeywords (chains : Bool) : List (String × Expr) → Nat
  | [] => 0
  | (_, value) :: keywords => max (heightWith chains value) (heightOfKeywords chains keywords)

end

/-- The height of a tree. -/
def height (e : Expr) : Nat :=
  e.heightWith false

/-- The height of a tree with each chain as one level. -/
def chainHeight (e : Expr) : Nat :=
  e.heightWith true

theorem heightOfItems_le_iff {chains : Bool} {items : List Expr} {limit : Nat}
    : heightOfItems chains items ≤ limit ↔ ∀ item ∈ items, item.heightWith chains ≤ limit := by
  induction items with
  | nil => simp [heightOfItems]
  | cons item items ih => rw [heightOfItems, Nat.max_le, ih, List.forall_mem_cons]

theorem heightOfKeywords_le_iff {chains : Bool} {keywords : List (String × Expr)} {limit : Nat}
    : heightOfKeywords chains keywords ≤ limit
      ↔ ∀ keyword ∈ keywords, keyword.2.heightWith chains ≤ limit := by
  induction keywords with
  | nil => simp [heightOfKeywords]
  | cons keyword keywords ih => rw [heightOfKeywords, Nat.max_le, ih, List.forall_mem_cons]

theorem chainHeight_list {items : List Expr} {limit : Nat}
    (h : ∀ item ∈ items, item.chainHeight ≤ limit)
    : (Expr.list items).chainHeight ≤ limit + 1 :=
  Nat.succ_le_succ (heightOfItems_le_iff.mpr h)

theorem chainHeight_set {items : List Expr} {limit : Nat}
    (h : ∀ item ∈ items, item.chainHeight ≤ limit)
    : (Expr.set items).chainHeight ≤ limit + 1 :=
  Nat.succ_le_succ (heightOfItems_le_iff.mpr h)

/-- The expression that is passed as an argument. -/
def Argument.value : Argument → Expr
  | .positional value => value
  | .keyword _ value => value

theorem chainHeight_ofCall {function : String} {arguments : List Argument} {limit : Nat}
    (h : ∀ argument ∈ arguments, argument.value.chainHeight ≤ limit)
    : (ofCall function arguments).chainHeight ≤ limit + 1 := by
  refine Nat.succ_le_succ (Nat.max_le.mpr
    ⟨heightOfItems_le_iff.mpr fun item member => ?_,
      heightOfKeywords_le_iff.mpr fun keyword member => ?_⟩)
  · obtain ⟨argument, among, same⟩ := List.mem_filterMap.mp member
    cases argument with
    | positional value => exact Option.some.inj same ▸ h _ among
    | keyword name value => exact nomatch same
  · obtain ⟨argument, among, same⟩ := List.mem_filterMap.mp member
    cases argument with
    | positional value => exact nomatch same
    | keyword name value => exact Option.some.inj same ▸ h _ among

theorem chainHeight_binary {op : BinaryOp} {left right : Expr} {limit : Nat}
    (first : left.chainHeight + 1 ≤ limit) (second : right.chainHeight + 1 ≤ limit)
    : (Expr.binary op left right).chainHeight ≤ limit := by
  refine Nat.max_le.mpr ⟨Nat.le_trans (Nat.add_le_add_left ?_ _) first, second⟩
  split
  · exact Nat.zero_le 1
  · exact Nat.le_refl 1

/-- A chain adds one level to its highest operand, by induction on the operations that go on with
it. -/
theorem chainHeight_foldl_binary {level : Level} {limit : Nat} {first : Expr}
    {rest : List (ArithmeticOp × Expr)}
    (others : ∀ pair ∈ rest, chainLevel? (.arithmetic pair.1) = some level
      ∧ pair.2.chainHeight ≤ limit)
    (start : ∀ op, chainLevel? op = some level →
      (first.chainHeight + if continuesChain op first then 0 else 1) ≤ limit + 1)
    (low : first.chainHeight ≤ limit + 1)
    : (rest.foldl (fun left pair => .binary (.arithmetic pair.1) left pair.2) first).chainHeight
      ≤ limit + 1 := by
  induction rest generalizing first with
  | nil => exact low
  | cons pair rest ih =>
      obtain ⟨⟨chains, right⟩, others⟩ := List.forall_mem_cons.mp others
      have next : (Expr.binary (.arithmetic pair.1) first pair.2).chainHeight ≤ limit + 1 :=
        Nat.max_le.mpr ⟨start _ chains, Nat.succ_le_succ right⟩
      refine ih others (fun op same => ?_) next
      have goesOn : continuesChain op (.binary (.arithmetic pair.1) first pair.2) = true := by
        simp [continuesChain, same, chains]
      rw [goesOn]
      exact next

/-- Subscripts add one level to the highest of what they stand behind and their positions, by
induction on them. -/
theorem chainHeight_foldl_index {limit : Nat} {base : Expr} {positions : List Expr}
    (others : ∀ position ∈ positions, position.chainHeight ≤ limit)
    (start : (base.chainHeight + if isIndex base then 0 else 1) ≤ limit + 1)
    (low : base.chainHeight ≤ limit + 1)
    : (positions.foldl .index base).chainHeight ≤ limit + 1 := by
  induction positions generalizing base with
  | nil => exact low
  | cons position positions ih =>
      obtain ⟨right, others⟩ := List.forall_mem_cons.mp others
      have next : (Expr.index base position).chainHeight ≤ limit + 1 :=
        Nat.max_le.mpr ⟨start, Nat.succ_le_succ right⟩
      exact ih others next next

-----------------------------------------------------------------------------------------
-- Chains of any length
-----------------------------------------------------------------------------------------

def one : Expr :=
  .number 1

/-- A link of a chain: a one behind an operator, or a one in brackets. -/
inductive Link where
  | operation (op : ArithmeticOp)
  | subscript

def Link.text : Link → List Char
  | .operation op => op.symbol.toList ++ ['1']
  | .subscript => ['[', '1', ']']

def Link.extend (e : Expr) : Link → Expr
  | .operation op => .binary (.arithmetic op) e one
  | .subscript => .index e one

def Link.level : Link → Level
  | .operation .add => .sum
  | .operation .sub => .sum
  | .operation .pow => .power
  | .operation _ => .product
  | .subscript => .subscripted

/-- The text of a one with a link behind it, over and over. -/
def chainText (link : Link) (count : Nat) : List Char :=
  '1' :: (List.replicate count link.text).flatten

/-- The tree of a chain. -/
def chain (link : Link) : Nat → Expr
  | 0 => one
  | count + 1 => link.extend (chain link count)

theorem spells_one {level : Level} : Spells (.expression level one) ['1'] :=
  Spells.atomic (@Spells.number ['1'] 1 (List.cons_ne_nil _ _) (by simp [isDigit]) rfl (by decide))

/-- A link goes on with what is spelled on its level. -/
theorem Link.spells {link : Link} (chains : link ≠ .operation .pow) {e : Expr} {text : List Char}
    (h : Spells (.expression link.level e) text)
    : Spells (.expression link.level (link.extend e)) (text ++ link.text) := by
  cases link with
  | subscript => exact .index h spells_one
  | operation op =>
      cases op with
      | pow => exact absurd rfl chains
      | add => exact .sum (.inl rfl) h spells_one
      | sub => exact .sum (.inr rfl) h spells_one
      | mul => exact .product (.inl rfl) h spells_one
      | div => exact .product (.inr (.inl rfl)) h spells_one
      | rem => exact .product (.inr (.inr rfl)) h spells_one

theorem chainText_succ (link : Link) (count : Nat)
    : chainText link (count + 1) = chainText link count ++ link.text := by
  rw [chainText, chainText, List.replicate_succ', List.flatten_append, List.flatten_singleton,
    List.cons_append]

/-- The text of a chain spells its tree, by induction on its links. -/
theorem spells_chain {link : Link} (chains : link ≠ .operation .pow) (count : Nat)
    : Spells (.expression link.level (chain link count)) (chainText link count) := by
  induction count with
  | zero => exact spells_one
  | succ count ih =>
      rw [chainText_succ]
      exact link.spells chains ih

/-- A chain is higher than long, by induction on its links. -/
theorem lt_height_chain (link : Link) (count : Nat) : count < (chain link count).height := by
  induction count with
  | zero => exact Nat.one_pos
  | succ count ih =>
      have higher : (chain link count).height + 1 ≤ (chain link (count + 1)).height := by
        cases link with
        | operation op => exact Nat.le_max_left _ _
        | subscript => exact Nat.le_max_left _ _
      omega

/-- The counts that are possible behind a link: nothing is open, and one level was the deepest. -/
def behindLinks : List Nesting :=
  [⟨0, 0, 0, 0, none, false, '1'⟩, ⟨0, 0, 0, 1, none, false, '1'⟩, ⟨0, 0, 0, 1, none, false, ']'⟩]

theorem Link.foldl_step_mem {link : Link} (chains : link ≠ .operation .pow) {n : Nesting}
    (member : n ∈ behindLinks)
    : link.text.foldl Nesting.step n ∈ behindLinks := by
  revert n
  cases link with
  | subscript => decide
  | operation op =>
      cases op with
      | pow => exact absurd rfl chains
      | add | sub | mul | div | rem => decide

/-- No chain is deep, by induction on its links. -/
theorem nestingDepth_chainText {link : Link} (chains : link ≠ .operation .pow) (count : Nat)
    : nestingDepth (chainText link count) ≤ maxNesting := by
  have behind : (chainText link count).foldl Nesting.step .start ∈ behindLinks := by
    induction count with
    | zero => exact List.mem_cons_self
    | succ count ih =>
        rw [chainText_succ, List.foldl_append]
        exact link.foldl_step_mem chains ih
  have flat : ∀ n ∈ behindLinks, n.deepest ≤ maxNesting := by decide
  exact flat _ behind

theorem parse_chainText {link : Link} (chains : link ≠ .operation .pow) (count : Nat)
    : parse (.ofList (chainText link count)) = .ok (chain link count) := by
  rw [parse, String.toList_ofList]
  exact parseChars_spelled (spells_chain chains count).loosest (nestingDepth_chainText chains count)

/-- Each kind of chain is read as a tree of any height. -/
theorem exists_parse_chainText {link : Link} (chains : link ≠ .operation .pow) (bound : Nat)
    : ∃ count e, parse (.ofList (chainText link count)) = .ok e ∧ bound < e.height :=
  ⟨bound, chain link bound, parse_chainText chains bound, lt_height_chain link bound⟩

/-- No bound holds for the heights of all trees that are read; witness: sums of ones. -/
theorem not_exists_height_bound
    : ¬ ∃ bound, ∀ source e, parse source = .ok e → e.height ≤ bound := by
  rintro ⟨bound, holds⟩
  have sums : Link.operation .add ≠ .operation .pow := nofun
  obtain ⟨count, e, parsed, higher⟩ := exists_parse_chainText sums bound
  exact absurd (holds _ e parsed) (Nat.not_le.mpr higher)

end QuizVariants.Expr
