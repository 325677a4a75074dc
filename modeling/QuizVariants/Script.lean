import QuizVariants.Expr.Eval
import QuizVariants.Text.Lines

/-! Scripts of assignments.
A script binds names to the values of expressions, one assignment a statement; statements are
separated by lines and semicolons. Dollars in front of names do not count.
-/

namespace QuizVariants.Script

open QuizVariants.Text
open QuizVariants.Literal (isQuote)

/-- The statements of a line, where `mark` is the open quote and `part` the current statement in
reverse. A backslash in a string takes the next character with it. -/
def statementsFrom (mark : Option Char) (part : List Char) : List Char → List (List Char)
  | [] => [part.reverse]
  | c :: rest =>
    match mark with
    | some quote =>
      if c = '\\' then
        match rest with
        | [] => [(c :: part).reverse]
        | d :: rest => statementsFrom mark (d :: c :: part) rest
      else statementsFrom (if c = quote then none else mark) (c :: part) rest
    | none =>
      if c = ';' then part.reverse :: statementsFrom none [] rest
      else statementsFrom (if isQuote c then some c else none) (c :: part) rest

/-- The statements of a line without outer blanks; a statement without characters is none. -/
def statements (line : List Char) : List (List Char) :=
  ((statementsFrom none [] line).map trim).filter (fun statement => !statement.isEmpty)

/-- An expression without the dollars in front of names; strings keep theirs. -/
def stripDollars (mark : Option Char) : List Char → List Char
  | [] => []
  | c :: rest =>
    match mark with
    | some quote =>
      if c = '\\' then
        match rest with
        | [] => [c]
        | d :: rest => c :: d :: stripDollars mark rest
      else c :: stripDollars (if c = quote then none else mark) rest
    | none =>
      if c = '$' ∧ (rest.head?.map startsName).getD false then stripDollars none rest
      else c :: stripDollars (if isQuote c then some c else none) rest

/-- Skips the word that may declare a name. -/
def skipDeclaration (text : List Char) : List Char :=
  match after? ['m', 'y'] text with
  | some (c :: rest) => if isBlank c then trimLeft rest else text
  | _ => text

/-- A name, one equals sign and an expression, after an optional dollar. -/
def binding? (text : List Char) : Option (List Char × List Char) := do
  let text := (after? ['$'] text).getD text
  let (name, rest) ← name? text
  let rest ← after? ['='] (trimLeft rest)
  match rest with
  | [] => none
  | c :: rest => if c = '=' then none else some (name, c :: rest)

/-- The name and the expression of an assignment. -/
def assignment? (statement : List Char) : Option (String × String) := do
  let (name, expression) ← binding? (skipDeclaration statement) <|> binding? statement
  some (.ofList name, .ofList (stripDollars none expression))

/-- A statement with the number of its line. -/
structure Statement where
  line : Nat
  text : List Char
  deriving Repr, DecidableEq

def ofSource (source : String) : List Statement :=
  (numbered (lines source.toList)).flatMap (fun line =>
    (statements line.2).map (fun text => ⟨line.1, text⟩))

/-- Runs statements after the bindings of earlier ones. -/
def runFrom (context : Context) (bindings : Table Value) : List Statement →
    ExceptT ScriptError Random (Table Value)
  | [] => return bindings
  | statement :: rest => do
    match assignment? statement.text with
    | none => throw (.malformed statement.line (.ofList statement.text))
    | some (name, expression) =>
      match ← (Scope.evaluate ⟨bindings, context⟩ expression).run with
      | .error error => throw (.failed statement.line error)
      | .ok value => runFrom context (bindings.insert name value) rest

def run (context : Context) (source : String) : ExceptT ScriptError Random (Table Value) :=
  runFrom context .empty (ofSource source)

end QuizVariants.Script
