import QuizVariants.Json
import QuizVariants.Table
import QuizVariants.Value.Basic

/-! Texts of values.
A value has a plain text, which strings enter without quotes, and a JSON document.
-/

namespace QuizVariants

open QuizVariants.Decimal

/-- Floats of values never have an exponent, and whole ones below `1e16` keep a point and a
zero. -/
def Value.floatLayout : Layout :=
  { tie := .up
    positional := fun _ => true
    pointed := fun power => power < 16
    signedExponent := false
    nan := "nan" }

def Value.floatText (x : Float) : String :=
  floatLayout.write x

def Value.boolText (value : Bool) : String :=
  if value then "True" else "False"

namespace Value

mutual

def text : Value → String
  | .number value => value.text
  | .float value => floatText value
  | .bool value => boolText value
  | .string text => text
  | .list items => "[" ++ String.intercalate ", " (texts items) ++ "]"
  | .symbolic value => value.markup

def texts : List Value → List String
  | [] => []
  | item :: items => text item :: texts items

end

mutual

def toJson : Value → Json
  | .number value => if value.isInteger then .integer value.num else .string value.text
  | .float value => .float value
  | .bool value => .bool value
  | .string text => .string text
  | .list items => .array (toJsonItems items)
  | .symbolic value => .string value.markup

def toJsonItems : List Value → List Json
  | [] => []
  | item :: items => toJson item :: toJsonItems items

end

/-- The JSON object of an environment. -/
def environmentJson (environment : Table Value) : Json :=
  .ofEntries toJson environment.entries

end Value

end QuizVariants
