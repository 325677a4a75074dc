import QuizVariants.Rational.Basic

/-! Literals of problem sources.
A section holds numbers, truth values, quoted strings and lists of them; any other text is kept
verbatim, which is how expressions arrive.
-/

namespace QuizVariants

inductive Literal where
  | integer (value : Word)
  | float (value : Float)
  | bool (value : Bool)
  /-- The keyword for what is not a number. -/
  | nan
  /-- A string that stood in quotes, without them. -/
  | quoted (text : String)
  | list (items : List Literal)
  /-- Text that is no other literal. -/
  | verbatim (text : String)
  deriving Inhabited

namespace Literal

def string? : Literal → Option String
  | .quoted text => some text
  | .verbatim text => some text
  | _ => none

mutual

/-- Equality by structure, floats being equal when they compare equal. -/
def same : Literal → Literal → Bool
  | .integer a, .integer b => a == b
  | .float a, .float b => a == b
  | .bool a, .bool b => a == b
  | .nan, .nan => true
  | .quoted a, .quoted b => a == b
  | .list a, .list b => sameItems a b
  | .verbatim a, .verbatim b => a == b
  | _, _ => false

/-- Equality of lists item by item. -/
def sameItems : List Literal → List Literal → Bool
  | [], [] => true
  | a :: as, b :: bs => same a b && sameItems as bs
  | _, _ => false

end

mutual

/-- Equality as such: the two zeros differ, and a float that is no number is equal to itself. -/
def identical : Literal → Literal → Bool
  | .integer a, .integer b => decide (a = b)
  | .float a, .float b => decide (a = b)
  | .bool a, .bool b => decide (a = b)
  | .nan, .nan => true
  | .quoted a, .quoted b => decide (a = b)
  | .list a, .list b => identicalItems a b
  | .verbatim a, .verbatim b => decide (a = b)
  | _, _ => false

def identicalItems : List Literal → List Literal → Bool
  | [], [] => true
  | a :: as, b :: bs => identical a b && identicalItems as bs
  | _, _ => false

end

mutual

theorem identical_iff (a b : Literal) : identical a b = true ↔ a = b := by
  cases a <;> cases b <;> simp [identical, identicalItems_iff]

theorem identicalItems_iff (items others : List Literal)
    : identicalItems items others = true ↔ items = others := by
  cases items <;> cases others <;> simp [identicalItems, identical_iff, identicalItems_iff]

end

instance : DecidableEq Literal :=
  fun a b => decidable_of_iff _ (identical_iff a b)

end Literal

end QuizVariants
