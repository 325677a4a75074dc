import QuizVariants.Decimal.Numeral
import QuizVariants.Text.Search

/-! Arguments of the command line.
Options have long names and some of them a letter; the value of an option stands after an equals
sign or is the next argument, unless that starts with a dash. Two dashes alone end the options.
-/

namespace QuizVariants.CommandLine

open QuizVariants.Text

/-- What the arguments ask for. -/
structure Settings where
  input : Option String := none
  legacy : Bool := false
  count : Option Nat := none
  allowDuplicates : Bool := false
  maxAttempts : Option Nat := none
  unbounded : Bool := false
  bindings : List String := []
  symbols : List String := []
  json : Bool := false
  color : Bool := false
  noColor : Bool := false
  deriving Repr, DecidableEq

inductive Flag where
  | legacy
  | allowDuplicates
  | unbounded
  | json
  | color
  | noColor
  | version
  deriving Repr, DecidableEq

inductive Key where
  | count
  | maxAttempts
  | binding
  | symbol
  deriving Repr, DecidableEq

inductive Switch where
  | flag (flag : Flag)
  | key (key : Key)
  deriving Repr, DecidableEq

def longOption? : String → Option Switch
  | "legacy" => some (.flag .legacy)
  | "allow-duplicates" => some (.flag .allowDuplicates)
  | "unbounded" => some (.flag .unbounded)
  | "json" => some (.flag .json)
  | "color" => some (.flag .color)
  | "no-color" => some (.flag .noColor)
  | "version" => some (.flag .version)
  | "count" => some (.key .count)
  | "max-attempts" => some (.key .maxAttempts)
  | "var" => some (.key .binding)
  | "symbol" => some (.key .symbol)
  | _ => none

def shortOption? : Char → Option Switch
  | 'n' => some (.key .count)
  | 'V' => some (.flag .version)
  | _ => none

/-- What a list of arguments asks for. -/
inductive Request where
  | version
  | run (settings : Settings)
  deriving Repr, DecidableEq

def setOnce (current : Bool) (set : Settings) : Option Settings :=
  if current then none else some set

/-- Takes in a flag; the flag for the version ends the reading. -/
def Settings.setFlag (settings : Settings) : Flag → Option Settings
  | .legacy => setOnce settings.legacy { settings with legacy := true }
  | .allowDuplicates => setOnce settings.allowDuplicates { settings with allowDuplicates := true }
  | .unbounded => setOnce settings.unbounded { settings with unbounded := true }
  | .json => setOnce settings.json { settings with json := true }
  | .color => setOnce settings.color { settings with color := true }
  | .noColor => setOnce settings.noColor { settings with noColor := true }
  | .version => none

/-- Counts fit in a word without sign, so they stay below two to the sixty-fourth. -/
def countBound : Nat := 0x10000000000000000

/-- A count in decimal digits, possibly after a plus. -/
def count? (text : List Char) : Option Nat :=
  let digits := (after? ['+'] text).getD text
  if digits.isEmpty || !digits.all isDigit then none
  else
    let n := Decimal.naturalOf digits
    if n < countBound then some n else none

/-- Takes in an option with its value. -/
def Settings.setKey (settings : Settings) (key : Key) (value : List Char) : Option Settings :=
  match key with
  | .count => do
    let n ← count? value
    if settings.count.isSome then none else some { settings with count := some n }
  | .maxAttempts => do
    let n ← count? value
    if settings.maxAttempts.isSome then none else some { settings with maxAttempts := some n }
  | .binding => some { settings with bindings := settings.bindings ++ [.ofList value] }
  | .symbol => some { settings with symbols := settings.symbols ++ [.ofList value] }

def Settings.setInput (settings : Settings) (name : String) : Option Settings :=
  if settings.input.isSome || name == "" then none else some { settings with input := some name }

/-- Whether no two options exclude each other. -/
def Settings.isConsistent (settings : Settings) : Bool :=
  !(settings.maxAttempts.isSome && settings.unbounded) && !(settings.color && settings.noColor)

/-- The value that stands after an equals sign, or in front of nothing else. -/
def attached (text : List Char) : Option (List Char) :=
  match text with
  | [] => none
  | '=' :: value => some value
  | value => some value

/-- What one argument means. -/
inductive Meaning where
  /-- No argument after this one is an option. -/
  | separator
  | input (name : String)
  | flag (flag : Flag)
  /-- An option with its value, which may be the next argument. -/
  | key (key : Key) (value : Option (List Char))
  deriving Repr, DecidableEq

def longMeaning? (text : List Char) : Option Meaning :=
  let name := text.takeWhile (· != '=')
  let value := after? ['='] (text.dropWhile (· != '='))
  match longOption? (.ofList name), value with
  | some (.flag flag), none => some (.flag flag)
  | some (.key key), value => some (.key key value)
  | _, _ => none

def shortMeaning? : List Char → Option Meaning
  | [] => some (.input "-")
  | letter :: rest =>
    match shortOption? letter with
    | some (.flag flag) => some (.flag flag)
    | some (.key key) => some (.key key (attached rest))
    | none => none

def meaning? (argument : String) : Option Meaning :=
  match argument.toList with
  | ['-', '-'] => some .separator
  | '-' :: '-' :: text => longMeaning? text
  | '-' :: text => shortMeaning? text
  | _ => some (.input argument)

/-- Whether an argument can be the value of the option before it. -/
def isValue (argument : String) : Bool :=
  match argument.toList with
  | '-' :: _ :: _ => false
  | _ => true

/-- The request of settings that are complete. -/
def Settings.request (settings : Settings) : Option Request :=
  if settings.isConsistent then some (.run settings) else none

def readInputs (settings : Settings) : List String → Option Request
  | [] => settings.request
  | argument :: rest => do
    readInputs (← settings.setInput argument) rest

/-- Reads arguments from left to right; there is no request when one of them is wrong. -/
def readArguments (settings : Settings) : List String → Option Request
  | [] => settings.request
  | argument :: rest =>
    match meaning? argument with
    | none => none
    | some .separator => readInputs settings rest
    | some (.input name) =>
      match settings.setInput name with
      | some settings => readArguments settings rest
      | none => none
    | some (.flag .version) => some .version
    | some (.flag flag) =>
      match settings.setFlag flag with
      | some settings => readArguments settings rest
      | none => none
    | some (.key key (some value)) =>
      match settings.setKey key value with
      | some settings => readArguments settings rest
      | none => none
    | some (.key key none) =>
      match rest with
      | [] => none
      | value :: rest =>
        if isValue value then
          match settings.setKey key value.toList with
          | some settings => readArguments settings rest
          | none => none
        else none

/-- What a list of arguments asks for, if it is well-formed. -/
def parse? (arguments : List String) : Option Request :=
  readArguments {} arguments

end QuizVariants.CommandLine
