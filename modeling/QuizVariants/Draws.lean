import QuizVariants.EvalError

/-! Random draws.
Random choices read a stream of natural numbers from left to right, so that a computation is a
function of its stream.
-/

namespace QuizVariants

/-- A stream of random numbers, and how many of them are used up. -/
structure Draws where
  source : Nat → Nat
  used : Nat := 0

/-- The number at a place of the stream that grows from a seed: the seed is moved on by a step for
each place, and its bits are mixed until every one of them depends on all others. -/
def mixedBits (seed place : Nat) : Nat :=
  let z : UInt64 := seed.toUInt64 + (place + 1).toUInt64 * 0x9E3779B97F4A7C15
  let z := (z ^^^ (z >>> 30)) * 0xBF58476D1CE4E5B9
  let z := (z ^^^ (z >>> 27)) * 0x94D049BB133111EB
  (z ^^^ (z >>> 31)).toNat

/-- The stream that grows from a seed, with none of it used. -/
def Draws.ofSeed (seed : Nat) : Draws :=
  { source := mixedBits seed }

/-- A computation that makes random draws. -/
abbrev Random := StateM Draws

/-- A computation that makes random draws and may fail; the draws before a failure stay used. -/
abbrev Evaluation := ExceptT EvalError Random

namespace Random

/-- Draws a number below `bound`. -/
def below (bound : Nat) (positive : 0 < bound) : Random (Fin bound) :=
  fun draws =>
    (⟨draws.source draws.used % bound, Nat.mod_lt _ positive⟩,
      { draws with used := draws.used + 1 })

/-- Draws an item of a list, if there is one. -/
def choose? : List α → Random (Option α)
  | [] => return none
  | first :: rest => do
    let place ← below (first :: rest).length (Nat.zero_lt_succ _)
    return some ((first :: rest).get place)

/-- Draws items from distinct places of a list, as many as `count` and the list allow. -/
def sample : (count : Nat) → List α → Random (List α)
  | 0, _ => return []
  | _ + 1, [] => return []
  | count + 1, first :: rest => do
    let place ← below (first :: rest).length (Nat.zero_lt_succ _)
    let others ← sample count ((first :: rest).eraseIdx place)
    return (first :: rest).get place :: others

/-- Draws an order for the items of a list. -/
def shuffle (items : List α) : Random (List α) :=
  sample items.length items

end Random

/-- A computation without draws as one that could make some. -/
def Evaluation.ofExcept (result : Except EvalError α) : Evaluation α :=
  ExceptT.mk (return result)

/-- A computation that cannot fail as one that could. -/
def Evaluation.ofRandom (action : Random α) : Evaluation α :=
  ExceptT.lift action

end QuizVariants
