import QuizVariants.Expr.Grammar
import QuizVariants.Text.Search

/-! Templates.
A template is text with placeholders; a placeholder is an expression between an at sign with an
opening brace and the brace that closes it. Main statement: the pieces of a text written one after
the other are the text.
-/

namespace QuizVariants

open QuizVariants.Text

/-- A placeholder: its text as the author wrote it, and what reading that gave. -/
structure Slot where
  source : String
  expression : Except EvalError Expr := Expr.parse source
  expression_eq : expression = Expr.parse source := by rfl

inductive Piece where
  | literal (text : String)
  | slot (slot : Slot)

abbrev Template := List Piece

namespace Template

def opening : List Char :=
  ['@', '{']

/-- Splits a text at the brace that closes it, where `depth` braces in it are open. -/
def closeBrace? (depth : Nat) : List Char → Option (List Char × List Char)
  | [] => none
  | c :: rest =>
    if c = '{' then (closeBrace? (depth + 1) rest).map (fun split => (c :: split.1, split.2))
    else if c = '}' then
      match depth with
      | 0 => some ([], rest)
      | depth + 1 => (closeBrace? depth rest).map (fun split => (c :: split.1, split.2))
    else (closeBrace? depth rest).map (fun split => (c :: split.1, split.2))

/-- Splitting at the closing brace takes out that brace only, by induction on the text. -/
theorem append_of_closeBrace? {depth : Nat} {text inner rest : List Char}
    (h : closeBrace? depth text = some (inner, rest))
    : inner ++ '}' :: rest = text := by
  induction text generalizing depth inner with
  | nil => simp [closeBrace?] at h
  | cons c text ih =>
    have step (d : Nat)
        (h : (closeBrace? d text).map (fun split => (c :: split.1, split.2))
          = some (inner, rest))
        : inner ++ '}' :: rest = c :: text := by
      obtain ⟨split, found, same⟩ := Option.map_eq_some_iff.mp h
      simp only [Prod.mk.injEq] at same
      obtain ⟨rfl, rfl⟩ := same
      simp [← ih found]
    simp only [closeBrace?] at h
    split at h
    · exact step _ h
    · split at h
      · next brace =>
        split at h
        · simp only [Option.some.injEq, Prod.mk.injEq] at h
          obtain ⟨rfl, rfl⟩ := h
          simp [brace]
        · exact step _ h
      · exact step _ h

/-- A literal piece, left out when there is nothing in it. -/
def literal (text : List Char) : Template :=
  if text.isEmpty then [] else [.literal (.ofList text)]

/-- The first placeholder of a text: what precedes it, its text, and what follows it. A
placeholder that is not closed ends the search. -/
def firstSlot? (text : List Char) : Option (List Char × List Char × List Char) := do
  let (before, body) ← breakOn opening text
  let (source, rest) ← closeBrace? 0 body
  some (before, source, rest)

/-- A placeholder is found with all that surrounds it. -/
theorem append_of_firstSlot? {text before source rest : List Char}
    (h : firstSlot? text = some (before, source, rest))
    : before ++ opening ++ source ++ '}' :: rest = text := by
  simp only [firstSlot?, Option.bind_eq_bind, Option.bind_eq_some_iff, Prod.exists,
    Option.some.injEq, Prod.mk.injEq] at h
  obtain ⟨_, body, opened, _, _, closed, rfl, rfl, rfl⟩ := h
  rw [← append_of_breakOn opened, ← append_of_closeBrace? closed]
  simp

def ofChars (text : List Char) : Template :=
  match found : firstSlot? text with
  | none => literal text
  | some (before, source, rest) =>
    have : rest.length < text.length := by
      rw [← append_of_firstSlot? found]
      simp only [List.length_append, List.length_cons]
      omega
    literal before ++ .slot { source := .ofList source } :: ofChars rest
termination_by text.length

def compile (text : String) : Template :=
  ofChars text.toList

/-- A placeholder as the author wrote it. -/
def slotText (source : String) : String :=
  .ofList opening ++ source ++ "\x7d"

/-- A piece as the author wrote it. -/
def pieceText : Piece → String
  | .literal text => text
  | .slot slot => slotText slot.source

end Template

end QuizVariants
