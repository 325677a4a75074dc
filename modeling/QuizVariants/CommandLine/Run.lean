import QuizVariants.CommandLine.Arguments
import QuizVariants.Report.Summary

/-! Runs of the command line.
A run builds what expressions can see from the arguments, reads a source, fills a batch and
reports it. Each way to fail has an exit status of its own.
-/

namespace QuizVariants.CommandLine

open QuizVariants.Text

/-- Why a run has no batch. -/
inductive Failure where
  | badArguments
  /-- A variable is not of the form of a name, an equals sign and an expression. -/
  | badVariable (text : String)
  /-- The expression of a variable has no value. -/
  | variableFailed (name : String) (error : EvalError)
  | unreadable (reason : String)
  | badSource (error : ParseError)
  | noBatch (reason : Batch.Failure)
  deriving Repr, DecidableEq

def Failure.message : Failure → String
  | .badArguments => "error: invalid arguments\n\nUsage: quizgen [OPTIONS] [INPUT]\n"
  | .badVariable text => s!"error: --var expects NAME=EXPR, got '{text}'\n"
  | .variableFailed name error => s!"error: --var {name}: {error.message}\n"
  | .unreadable reason => s!"error: failed to read input: {reason}\n"
  | .badSource error => s!"error: {error.message}\n"
  | .noBatch .tooMany => "error: too many variants\n\nNo batch has room for them.\n"
  | .noBatch .unfinished => "error: the batch was given up\n"

def Failure.exitStatus : Failure → Nat
  | .badArguments => 2
  | .badVariable _ => 2
  | .variableFailed _ _ => 2
  | .unreadable _ => 1
  | .badSource _ => 1
  | .noBatch .tooMany => 101
  | .noBatch .unfinished => 3

/-- What a run leaves behind. -/
structure Outcome where
  exitStatus : Nat
  output : String
  errors : String
  deriving Repr, DecidableEq

def Failure.outcome (failure : Failure) : Outcome :=
  ⟨failure.exitStatus, "", failure.message⟩

def versionText : String := "quizgen 0.1.0\n"

/-- Binds variables in order, each of them after the ones before it. -/
def bindVariables (context : Context) : List String → Random (Except Failure Context)
  | [] => return .ok context
  | text :: rest => do
    match breakOn ['='] text.toList with
    | none => return .error (.badVariable text)
    | some (name, expression) =>
      match ← (Scope.evaluate ⟨.empty, context⟩ (.ofList expression)).run with
      | .error error => return .error (.variableFailed (.ofList name) error)
      | .ok value =>
        let externals := context.externals.insert (.ofList (trim name)) value
        bindVariables { context with externals } rest

/-- What expressions can see under settings. -/
def contextOf (settings : Settings) : Random (Except Failure Context) :=
  bindVariables { symbols := settings.symbols, sandbox := some .assignments } settings.bindings

def defaultAttempts : Nat := 1000

/-- How a batch is filled under settings. -/
def optionsOf (settings : Settings) : Batch.Options :=
  { duplicatesAllowed := settings.allowDuplicates
    maxAttempts :=
      if settings.unbounded then none else some (settings.maxAttempts.getD defaultAttempts) }

def dialectOf (settings : Settings) : Dialect :=
  if settings.legacy then .legacy else .primary

/-- The bytes of the input, or why they cannot be read. -/
abbrev Input := Except String (List Nat)

/-- A definition with its batch and all warnings. -/
structure Result where
  definition : Definition
  batch : Batch
  warnings : List Warning

/-- The attempts after which a batch without a limit is given up. -/
def horizon : Nat := 0x10000000000000000

def fillBatch (settings : Settings) (context : Context) (input : Input)
    : Random (Except Failure Result) := do
  match input with
  | .error reason => return .error (.unreadable reason)
  | .ok bytes =>
    match Definition.parseBytes (dialectOf settings) bytes with
    | .error error => return .error (.badSource error)
    | .ok (definition, warnings) =>
      let count := settings.count.getD 1
      match ← Batch.generate definition context (optionsOf settings) count horizon with
      | .error reason => return .error (.noBatch reason)
      | .ok batch => return .ok ⟨definition, batch, warnings ++ batch.warnings⟩

/-- Shows a batch as settings ask for; without a choice of colour the terminal decides. -/
def outcomeOf (settings : Settings) (terminal : Bool) (result : Result) (timing : Timing)
    : Outcome :=
  let palette : Report.Palette := ⟨settings.color || (!settings.noColor && terminal)⟩
  let output :=
    if settings.json then (Report.json result.batch timing).pretty ++ "\n"
    else Report.text palette result.definition result.batch timing
  ⟨if result.batch.isComplete then 0 else 3, output, ""⟩

end QuizVariants.CommandLine
