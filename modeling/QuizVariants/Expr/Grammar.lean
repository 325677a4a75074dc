import QuizVariants.Decimal.Numeral
import QuizVariants.EvalError
import QuizVariants.Expr.Basic
import QuizVariants.Expr.Nesting
import QuizVariants.Expr.Parser

/-! The grammar of expressions.
From loose to tight: one comparison, sums, products, signs, powers, subscripts, and what stands
alone. Sums and products associate to the left and powers to the right, and a sign binds looser
than a power but may stand in an exponent.

Every level is given the parser of signed operands for what it nests; only that parser recurs, and
it does so on a bound that the length of the text sets.
-/

namespace QuizVariants.Expr

open QuizVariants.Decimal
open QuizVariants.Text
open QuizVariants.Parser

/-- The tree of a numeral: an integer when it is written as one that fits in a word. -/
def ofNumeral (numeral : Numeral) : Expr :=
  match numeral.natural?.bind (fun n => Word.ofInt? n) with
  | some word => .number (.integer word.toInt word.fits)
  | none => .float numeral.toFloat

def numeral : Parser Expr := do
  return ofNumeral (← ofOption Numeral.read?)

/-- The characters that stand for an escaped character: only backslashes and quotes lose their
backslash. -/
def unescape (c : Char) : List Char :=
  if c = '\\' ∨ c = '\'' ∨ c = '"' then [c] else ['\\', c]

def stringBody (mark : Char) : List Char → Option (List Char × List Char)
  | [] => none
  | '\\' :: rest =>
    match rest with
    | [] => none
    | c :: rest => (stringBody mark rest).map (fun read => (unescape c ++ read.1, read.2))
  | c :: rest =>
    if c = mark then some ([], rest)
    else (stringBody mark rest).map (fun read => (c :: read.1, read.2))

def string? : List Char → Option (List Char × List Char)
  | [] => none
  | mark :: rest => if mark = '\'' ∨ mark = '"' then stringBody mark rest else none

def stringLiteral : Parser Expr := do
  return .string (.ofList (← ofOption string?))

def identifier : Parser String := do
  return .ofList (← ofOption name?)

/-- A name that no arguments follow; two of them are truth values in either spelling. -/
def ofName (name : String) : Expr :=
  match name with
  | "True" | "true" => .bool true
  | "False" | "false" => .bool false
  | name => .ident name

inductive Argument where
  | positional (value : Expr)
  | keyword (name : String) (value : Expr)

def Argument.positional? : Argument → Option Expr
  | .positional value => some value
  | .keyword _ _ => none

def Argument.keyword? : Argument → Option (String × Expr)
  | .positional _ => none
  | .keyword name value => some (name, value)

def ofCall (function : String) (arguments : List Argument) : Expr :=
  .call function (arguments.filterMap Argument.positional?)
    (arguments.filterMap Argument.keyword?)

/-- A keyword argument; one equals sign tells it from a comparison. -/
def keywordArgument (expression : Parser Expr) : Parser Argument := do
  let name ← token identifier
  char '='
  notBefore '='
  return .keyword name (← expression)

def argument (expression : Parser Expr) : Parser Argument :=
  orElse (keywordArgument expression) (do return .positional (← expression))

def arguments (expression : Parser Expr) : Parser (List Argument) := do
  spaces
  char '('
  let arguments ← commaSeparated (argument expression)
  let _ ← optional (char ',')
  token (char ')')
  return arguments

/-- A call, or a name when no arguments follow. -/
def callOrName (expression : Parser Expr) : Parser Expr := do
  let name ← identifier
  match ← optional (arguments expression) with
  | some arguments => return ofCall name arguments
  | none => return ofName name

/-- An expression in parentheses, or a list when there is a comma or nothing. -/
def parenthesized (expression : Parser Expr) : Parser Expr := do
  char '('
  let items ← commaSeparated expression
  let comma ← optional (token (char ','))
  token (char ')')
  match items, comma with
  | [item], none => return item
  | items, _ => return .list items

/-- Items with commas between them and possibly one after them. -/
def items (expression : Parser Expr) : Parser (List Expr) := do
  let items ← commaSeparated expression
  let _ ← optional (token (char ','))
  return items

def listLiteral (expression : Parser Expr) : Parser Expr := do
  char '['
  let items ← token (items expression)
  char ']'
  return .list items

def setLiteral (expression : Parser Expr) : Parser Expr := do
  char '{'
  let items ← token (items expression)
  char '}'
  return .set items

/-- What stands alone. -/
def atom (expression : Parser Expr) : Parser Expr :=
  token (choice
    [numeral, stringLiteral, callOrName expression, parenthesized expression,
      listLiteral expression]
    (setLiteral expression))

/-- A position in brackets. -/
def subscript (expression : Parser Expr) : Parser Expr := do
  symbol "["
  let position ← expression
  symbol "]"
  return position

def subscripted (expression : Parser Expr) : Parser Expr := do
  let base ← atom expression
  return (← many (subscript expression)).foldl .index base

def operator (pattern : String) (op : α) : Parser α := do
  symbol pattern
  return op

/-- A factor that is no half of a power. -/
def times : Parser ArithmeticOp := do
  token (do
    char '*'
    notBefore '*')
  return .mul

/-- Left-associative operations between operands. -/
def leftAssociative (op : Parser ArithmeticOp) (operand : Parser Expr) : Parser Expr := do
  let first ← operand
  let rest ← many (do
    let op ← op
    let right ← operand
    return (op, right))
  return rest.foldl (fun left pair => .binary (.arithmetic pair.1) left pair.2) first

def product (signed : Parser Expr) : Parser Expr :=
  leftAssociative (choice [times, operator "/" .div] (operator "%" .rem)) signed

def sum (signed : Parser Expr) : Parser Expr :=
  leftAssociative (orElse (operator "+" .add) (operator "-" .sub)) (product signed)

/-- The operation of a comparison; longer symbols are tried first. -/
def comparisonOp : Parser ComparisonOp :=
  choice
    [operator "==" .eq, operator "!=" .ne, operator "<=" .le, operator ">=" .ge,
      operator "<" .lt]
    (operator ">" .gt)

/-- A sum, or two sums compared. -/
def comparison (signed : Parser Expr) : Parser Expr := do
  let left ← sum signed
  let right ← optional (do
    let op ← comparisonOp
    let right ← sum signed
    return (op, right))
  match right with
  | some (op, right) => return .binary (.comparison op) left right
  | none => return left

/-- A subscripted atom with an optional exponent. -/
def power (signed : Parser Expr) : Parser Expr := do
  let base ← subscripted (comparison signed)
  let exponent ← optional (do
    orElse (symbol "**") (symbol "^")
    signed)
  match exponent with
  | some exponent => return .binary (.arithmetic .pow) base exponent
  | none => return base

def withSign (pattern : String) (op : UnaryOp) (signed : Parser Expr) : Parser Expr := do
  symbol pattern
  return .unary op (← signed)

/-- An operand with any number of signs, nested at most `bound` deep. -/
def signed : (bound : Nat) → Parser Expr
  | 0 => fail
  | bound + 1 =>
    choice [withSign "-" .neg (signed bound), withSign "+" .pos (signed bound)]
      (power (signed bound))

/-- A whole expression; a text nests less deep than it is long. -/
def whole (text : List Char) : Except (List Char) (Expr × List Char) :=
  token (comparison (signed (text.length + 1))) text

/-- The number of characters that are shown of a text that is no expression. -/
def shownRest : Nat := 24

/-- Why a text that stops being an expression where `rest` starts is none. -/
def stoppedAt (rest : List Char) : SyntaxFault :=
  if rest.isEmpty then .unexpectedEnd else .unexpectedInput (.ofList (rest.take shownRest))

def parseChars (text : List Char) : Except EvalError Expr :=
  if maxNesting < nestingDepth text then .error (.badSyntax .tooDeep)
  else
    match whole text with
    | .ok (e, []) => .ok e
    | .ok (_, rest) => .error (.badSyntax (stoppedAt rest))
    | .error rest => .error (.badSyntax (stoppedAt rest))

def parse (source : String) : Except EvalError Expr :=
  parseChars source.toList

end QuizVariants.Expr
