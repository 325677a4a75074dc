import QuizVariants.Value.Order

/-! Arguments of library functions. -/

namespace QuizVariants.Library

/-- The values that a function is called with. -/
structure Arguments where
  positional : List Value
  keywords : List (String × Value)

namespace Arguments

/-- Takes out the first keyword argument with a name. -/
def takeKeyword (name : String) : List (String × Value) → Option Value × List (String × Value)
  | [] => (none, [])
  | (key, value) :: rest =>
    if key = name then (some value, rest)
    else
      let (found, rest) := takeKeyword name rest
      (found, (key, value) :: rest)

/-- Splits off a keyword argument. -/
def keyword (args : Arguments) (name : String) : Option Value × Arguments :=
  let (found, rest) := takeKeyword name args.keywords
  (found, { args with keywords := rest })

/-- The positional arguments of a function that takes no keyword arguments. -/
def withoutKeywords (args : Arguments) (function : String) : Except EvalError (List Value) :=
  match args.keywords with
  | [] => .ok args.positional
  | (key, _) :: _ => .error (.invalidArgument function (.unexpectedKeyword key))

/-- The argument of a function of one argument. -/
def single (args : Arguments) (function : String) : Except EvalError Value := do
  match ← args.withoutKeywords function with
  | [value] => .ok value
  | values => .error (.arity function "1" values.length)

/-- A list that is the only argument stands for its items. -/
def spread : List Value → List Value
  | [.list items] => items
  | values => values

end Arguments

/-- Refuses a value that is no number. -/
def requireNumber (function : String) (value : Value) : Except EvalError Unit :=
  if value.isNumeric then .ok ()
  else .error (.invalidArgument function (.notNumber value.typeName))

/-- A value that an operation on numbers cannot take. -/
def notNumber (value : Value) : Except EvalError α :=
  .error (.typeMismatch "number" value.typeName)

end QuizVariants.Library
