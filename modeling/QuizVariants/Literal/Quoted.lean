/-! Strings in quotes.
Inside quotes a backslash escapes itself, both quotes, a newline and a tab, and stands for itself
before any other character. Main statement: what is written in quotes is read back, whatever
follows.
-/

namespace QuizVariants.Literal

def escapeChar (c : Char) : List Char :=
  if c = '\\' then ['\\', '\\']
  else if c = '"' then ['\\', '"']
  else if c = '\n' then ['\\', 'n']
  else if c = '\t' then ['\\', 't']
  else [c]

def quote (text : List Char) : List Char :=
  '"' :: text.flatMap escapeChar ++ ['"']

/-- The characters that stand for an escaped character. -/
def unescapeChar (c : Char) : List Char :=
  if c = 'n' then ['\n']
  else if c = 't' then ['\t']
  else if c = '\\' ∨ c = '"' ∨ c = '\'' then [c]
  else ['\\', c]

/-- Reads a text up to the closing `mark`; gives the text and what follows the mark. A text in
quotes holds no newline of its own. -/
def unquote (mark : Char) : List Char → Option (List Char × List Char)
  | [] => none
  | '\\' :: rest =>
    match rest with
    | [] => none
    | c :: rest => (unquote mark rest).map (fun read => (unescapeChar c ++ read.1, read.2))
  | c :: rest =>
    if c = mark then some ([], rest)
    else if c = '\n' then none
    else (unquote mark rest).map (fun read => (c :: read.1, read.2))

def isQuote (c : Char) : Bool :=
  c == '"' || c == '\''

/-- An ordinary character is read as itself. -/
theorem unquote_cons {mark c : Char} {rest : List Char} (slash : c ≠ '\\') (open' : c ≠ mark)
    (line : c ≠ '\n')
    : unquote mark (c :: rest) = (unquote mark rest).map (fun read => (c :: read.1, read.2)) := by
  rw [unquote.eq_def]
  split
  · simp_all
  · simp_all
  · simp_all

/-- An escaped character is read back. -/
theorem unquote_escapeChar (c : Char) (rest : List Char)
    : unquote '"' (escapeChar c ++ rest)
        = (unquote '"' rest).map (fun read => (c :: read.1, read.2)) := by
  unfold escapeChar
  split
  · subst c
    simp [unquote, unescapeChar]
  · split
    · subst c
      simp [unquote, unescapeChar]
    · split
      · subst c
        simp [unquote, unescapeChar]
      · split
        · subst c
          simp [unquote, unescapeChar]
        · next slash mark line _ => exact unquote_cons slash mark line

/-- Reading undoes writing, by induction on the text. -/
theorem unquote_quoted (text rest : List Char)
    : unquote '"' (text.flatMap escapeChar ++ '"' :: rest) = some (text, rest) := by
  induction text with
  | nil => simp [unquote]
  | cons c text ih =>
    rw [List.flatMap_cons, List.append_assoc, unquote_escapeChar, ih]
    rfl

end QuizVariants.Literal
