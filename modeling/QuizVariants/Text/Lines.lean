/-! Lines of a text.
A line ends at a newline; one carriage return before the newline belongs to the line's end,
and a final newline opens no further line.
-/

namespace QuizVariants.Text

/-- Drops the carriage return that ends a line held in reverse. -/
def dropReturn : List Char → List Char
  | '\r' :: rest => rest
  | line => line

/-- The lines of a text, where `line` holds the characters of the current line in reverse. -/
def linesFrom (line : List Char) : List Char → List (List Char)
  | [] => if line.isEmpty then [] else [line.reverse]
  | c :: rest =>
    if c = '\n' then (dropReturn line).reverse :: linesFrom [] rest
    else linesFrom (c :: line) rest

def lines (text : List Char) : List (List Char) :=
  linesFrom [] text

/-- Pairs each line with its number, counted from one. -/
def numbered (lines : List (List Char)) : List (Nat × List Char) :=
  lines.mapIdx (fun index line => (index + 1, line))

/-- The characters before the first `stop`, or the whole text without one. -/
def before (stop : Char) (text : List Char) : List Char :=
  text.takeWhile (· != stop)

theorem lines_nil : lines [] = [] :=
  rfl

theorem lines_newline (rest : List Char)
    : lines ('\n' :: rest) = [] :: lines rest :=
  rfl

/-- A line without newlines that does not end in a carriage return is split off whole,
by induction on the line with its read part kept in reverse. -/
theorem linesFrom_append_newline (read line rest : List Char)
    (plain : '\n' ∉ line) (ending : dropReturn (line.reverse ++ read) = line.reverse ++ read)
    : linesFrom read (line ++ '\n' :: rest) = (read.reverse ++ line) :: lines rest := by
  induction line generalizing read with
  | nil => simp_all [linesFrom, lines]
  | cons c line ih =>
    have hc : c ≠ '\n' := fun h => plain (by simp [h])
    have hl : '\n' ∉ line := fun h => plain (by simp [h])
    simp only [List.cons_append, linesFrom, hc, if_false]
    rw [ih (c :: read) hl (by simpa using ending)]
    simp

end QuizVariants.Text
