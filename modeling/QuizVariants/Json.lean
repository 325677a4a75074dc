import QuizVariants.Decimal.Layout
import QuizVariants.Rational.Basic

/-! JSON documents.
A document has a compact text on one line and a pretty text with two blanks of indentation for
each level.
-/

namespace QuizVariants

open QuizVariants.Decimal

/-- A JSON document; the fields of an object are in the order in which they are written. -/
inductive Json where
  | null
  | bool (value : Bool)
  | integer (value : Int)
  | float (value : Float)
  | string (text : String)
  | array (items : List Json)
  | object (fields : List (String × Json))
  deriving Inhabited

namespace Json

/-- Floats have a point from `1e-5` up to `1e16` and an exponent outside of that. -/
def floatLayout : Layout :=
  { tie := .even
    positional := fun power => -5 ≤ power && power < 16
    pointed := fun _ => true
    signedExponent := true
    nan := "null" }

/-- The text of a float; what is not finite has none. -/
def floatText (x : Float) : List Char :=
  match Denotation.ofFloat x with
  | .finite .. => (floatLayout.write x).toList
  | _ => ['n', 'u', 'l', 'l']

def hexDigit (n : Nat) : Char :=
  Nat.digitChar n

/-- A character inside a string; only quotes, backslashes and control characters are escaped. -/
def escapeChar (c : Char) : List Char :=
  if c = '"' then ['\\', '"']
  else if c = '\\' then ['\\', '\\']
  else if c = '\n' then ['\\', 'n']
  else if c = '\t' then ['\\', 't']
  else if c = '\r' then ['\\', 'r']
  else if c.toNat = 8 then ['\\', 'b']
  else if c.toNat = 12 then ['\\', 'f']
  else if c.toNat < 32 then
    ['\\', 'u', '0', '0', hexDigit (c.toNat / 16), hexDigit (c.toNat % 16)]
  else [c]

def quoted (text : String) : List Char :=
  '"' :: text.toList.flatMap escapeChar ++ ['"']

mutual

/-- The text without blanks. -/
def compactChars : Json → List Char
  | .null => ['n', 'u', 'l', 'l']
  | .bool true => ['t', 'r', 'u', 'e']
  | .bool false => ['f', 'a', 'l', 's', 'e']
  | .integer n => Rational.integerText n
  | .float x => floatText x
  | .string text => quoted text
  | .array items => '[' :: compactItems items ++ [']']
  | .object fields => '{' :: compactFields fields ++ ['}']

def compactItems : List Json → List Char
  | [] => []
  | [item] => compactChars item
  | item :: items => compactChars item ++ ',' :: compactItems items

def compactFields : List (String × Json) → List Char
  | [] => []
  | [(name, value)] => quoted name ++ ':' :: compactChars value
  | (name, value) :: fields =>
    quoted name ++ ':' :: compactChars value ++ ',' :: compactFields fields

end

def compact (json : Json) : String :=
  .ofList json.compactChars

/-- The start of a line at a level of indentation. -/
def newLine (level : Nat) : List Char :=
  '\n' :: List.replicate (2 * level) ' '

mutual

/-- The text with every item and field on a line of its own. -/
def prettyChars (level : Nat) : Json → List Char
  | .array [] => ['[', ']']
  | .array items => '[' :: prettyItems (level + 1) items ++ newLine level ++ [']']
  | .object [] => ['{', '}']
  | .object fields => '{' :: prettyFields (level + 1) fields ++ newLine level ++ ['}']
  | json => compactChars json

def prettyItems (level : Nat) : List Json → List Char
  | [] => []
  | [item] => newLine level ++ prettyChars level item
  | item :: items => newLine level ++ prettyChars level item ++ ',' :: prettyItems level items

def prettyFields (level : Nat) : List (String × Json) → List Char
  | [] => []
  | [(name, value)] => newLine level ++ quoted name ++ ':' :: ' ' :: prettyChars level value
  | (name, value) :: fields =>
    newLine level ++ quoted name ++ ':' :: ' ' :: prettyChars level value
      ++ ',' :: prettyFields level fields

end

def pretty (json : Json) : String :=
  .ofList (json.prettyChars 0)

def strings (texts : List String) : Json :=
  .array (texts.map .string)

/-- An object with the entries of a table. -/
def ofEntries (toJson : α → Json) (entries : List (String × α)) : Json :=
  .object (entries.map (fun entry => (entry.1, toJson entry.2)))

end Json

end QuizVariants
