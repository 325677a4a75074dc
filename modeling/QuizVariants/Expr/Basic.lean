import QuizVariants.Rational.Basic

/-! Expressions.
Parameters and placeholders are written in a small language of arithmetic, comparisons, calls and
lists; an expression is its tree.
-/

namespace QuizVariants

/-- A sign in front of an operand. -/
inductive UnaryOp where
  | neg
  | pos
  deriving Repr, DecidableEq

inductive ArithmeticOp where
  | add
  | sub
  | mul
  | div
  | rem
  | pow
  deriving Repr, DecidableEq

inductive ComparisonOp where
  | eq
  | ne
  | lt
  | le
  | gt
  | ge
  deriving Repr, DecidableEq

inductive BinaryOp where
  | arithmetic (op : ArithmeticOp)
  | comparison (op : ComparisonOp)
  deriving Repr, DecidableEq

def ArithmeticOp.symbol : ArithmeticOp → String
  | .add => "+"
  | .sub => "-"
  | .mul => "*"
  | .div => "/"
  | .rem => "%"
  | .pow => "**"

def ComparisonOp.symbol : ComparisonOp → String
  | .eq => "=="
  | .ne => "!="
  | .lt => "<"
  | .le => "<="
  | .gt => ">"
  | .ge => ">="

def BinaryOp.symbol : BinaryOp → String
  | .arithmetic op => op.symbol
  | .comparison op => op.symbol

/-- The tree of an expression. -/
inductive Expr where
  | number (value : Rational)
  | float (value : Float)
  | string (text : String)
  | bool (value : Bool)
  | ident (name : String)
  | list (items : List Expr)
  /-- A list that keeps only the first of equal items. -/
  | set (items : List Expr)
  | unary (op : UnaryOp) (operand : Expr)
  | binary (op : BinaryOp) (left right : Expr)
  /-- A call with its positional and its keyword arguments. -/
  | call (function : String) (positional : List Expr) (keywords : List (String × Expr))
  | index (target position : Expr)
  deriving Inhabited

namespace Expr

mutual

/-- The names that an expression reads as variables, in the order of their appearance. -/
def mentioned : Expr → List String
  | .number _ => []
  | .float _ => []
  | .string _ => []
  | .bool _ => []
  | .ident name => [name]
  | .list items => mentionedItems items
  | .set items => mentionedItems items
  | .unary _ operand => mentioned operand
  | .binary _ left right => mentioned left ++ mentioned right
  | .call _ positional keywords => mentionedItems positional ++ mentionedKeywords keywords
  | .index target position => mentioned target ++ mentioned position

def mentionedItems : List Expr → List String
  | [] => []
  | item :: items => mentioned item ++ mentionedItems items

def mentionedKeywords : List (String × Expr) → List String
  | [] => []
  | (_, value) :: keywords => mentioned value ++ mentionedKeywords keywords

end

/-- Puts a name into its place in an increasing list without repetitions. -/
def insertName (name : String) : List String → List String
  | [] => [name]
  | other :: names =>
    if name < other then name :: other :: names
    else if name = other then other :: names
    else other :: insertName name names

/-- The names that an expression reads as variables, in increasing order. -/
def freeNames (e : Expr) : List String :=
  e.mentioned.foldr insertName []

/-- Inserting a name adds that name alone. -/
theorem mem_insertName {name other : String} {names : List String}
    : other ∈ insertName name names ↔ other = name ∨ other ∈ names := by
  induction names with
  | nil => simp [insertName]
  | cons first names ih =>
    simp only [insertName]
    split
    · simp
    · split
      · next same => simp [same]
      · simp only [List.mem_cons, ih]
        constructor
        · rintro (h | h | h) <;> simp [h]
        · rintro (h | h | h) <;> simp [h]

/-- The free names are the names that are mentioned. -/
theorem mem_freeNames {e : Expr} {name : String}
    : name ∈ e.freeNames ↔ name ∈ e.mentioned := by
  unfold freeNames
  induction e.mentioned with
  | nil => simp
  | cons first names ih => simp [mem_insertName, ih]

end Expr

end QuizVariants
