/-! Blank characters and trimming.
A character is blank when it has the Unicode property White_Space.
-/

namespace QuizVariants.Text

/-- The code points with the property White_Space. -/
def isBlank (c : Char) : Bool :=
  let n := c.toNat
  (9 ≤ n && n ≤ 13) || n == 32 || n == 0x85 || n == 0xA0 || n == 0x1680
    || (0x2000 ≤ n && n ≤ 0x200A) || n == 0x2028 || n == 0x2029 || n == 0x202F
    || n == 0x205F || n == 0x3000

def trimLeft (text : List Char) : List Char :=
  text.dropWhile isBlank

def trimRight (text : List Char) : List Char :=
  (text.reverse.dropWhile isBlank).reverse

/-- The text without blanks at either end. -/
def trim (text : List Char) : List Char :=
  trimRight (trimLeft text)

/-- Whether a text has no character that shows. -/
def allBlank (text : List Char) : Bool :=
  text.all isBlank

theorem trimLeft_nil : trimLeft [] = [] :=
  rfl

/-- Trimming on the left drops a leading blank. -/
theorem trimLeft_cons_of_isBlank {c : Char} {text : List Char} (h : isBlank c = true)
    : trimLeft (c :: text) = trimLeft text := by
  simp [trimLeft, h]

/-- Trimming on the left keeps a text that starts with a character that shows. -/
theorem trimLeft_cons_of_not_isBlank {c : Char} {text : List Char} (h : isBlank c = false)
    : trimLeft (c :: text) = c :: text := by
  simp [trimLeft, h]

end QuizVariants.Text
