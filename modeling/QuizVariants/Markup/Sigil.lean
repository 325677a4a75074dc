import QuizVariants.Markup.Cleanup
import QuizVariants.Text.Word

/-! Sigils of tagged sources.
A dollar in front of a name, bare or in braces, refers to a parameter; inline equations hold
expressions. Both become placeholders.
-/

namespace QuizVariants.Markup

open QuizVariants.Text

/-- A run of word characters, with what follows. -/
def word? (text : List Char) : Option (List Char × List Char) :=
  let word := text.takeWhile isWord
  if word.isEmpty then none else some (word, text.dropWhile isWord)

def optional (c : Char) : List Char → List Char × List Char
  | [] => ([], [])
  | d :: rest => if d = c then ([c], rest) else ([], d :: rest)

/-- A run of word characters with a closing bracket after it. -/
def closing? (text : List Char) : Option (List Char × List Char) :=
  match word? text with
  | some (word, ']' :: rest) => some (word ++ [']'], rest)
  | _ => none

/-- A name with an optional index, whose own dollar is left out. -/
def reference? (text : List Char) : Option (List Char × List Char) := do
  let (name, rest) ← word? text
  let (bracket, rest) := optional '[' rest
  let (_, rest) := optional '$' rest
  let (index, rest) := (closing? rest).getD ([], rest)
  some (name ++ bracket ++ index, rest)

/-- The reference that the whole text between braces is; a closing bracket directly after a name
takes the last character of the name for its index. -/
def bracedReference? (text : List Char) : Option (List Char) :=
  match reference? text with
  | some (reference, []) => some reference
  | some (name, [']']) =>
    if name.all isWord ∧ 2 ≤ name.length ∧ text = name ++ [']'] then some text else none
  | _ => none

/-- A reference in braces after a dollar, with the texts to put around it. -/
def bracedSigil (before after : List Char) : List Char → Option (List Char × List Char)
  | '$' :: '{' :: text => do
    let (inner, rest) ← breakOn ['}'] text
    let reference ← bracedReference? inner
    some (before ++ reference ++ after, rest)
  | _ => none

/-- A reference directly after a dollar, with the texts to put around it. -/
def bareSigil (before after : List Char) : List Char → Option (List Char × List Char)
  | '$' :: text => do
    let (reference, rest) ← reference? text
    some (before ++ reference ++ after, rest)
  | _ => none

/-- Text in which every reference has lost its dollars. -/
def stripSigils (text : List Char) : List Char :=
  replaceAll (bareSigil [] []) (replaceAll (bracedSigil [] []) text)

def placeholder (expression : List Char) : List Char :=
  '@' :: '{' :: expression ++ ['}']

/-- The opening of an equation tag, without its end. -/
def equationOpening? (text : List Char) : Option (List Char) :=
  after? ['<', 'e', 'q', 'n'] text <|> after? ['<', 'E', 'Q', 'N'] text

def inlineEquation (text : List Char) : Option (List Char × List Char) := do
  let rest ← equationOpening? text
  let rest ← after? [' '] rest
  let (inner, rest) ← breakInLine [['>']] rest
  some (placeholder (stripSigils inner), rest)

def taggedEquation (text : List Char) : Option (List Char × List Char) := do
  let rest ← equationOpening? text
  let rest ← after? ['>'] rest
  let (inner, rest) ← breakInLine ["</eqn>".toList, "</EQN>".toList] rest
  some (placeholder (stripSigils inner), rest)

/-- The rules for tagged display text, in order. -/
def sigilRules : List (List Char → Option (List Char × List Char)) :=
  [inlineEquation, taggedEquation, bracedSigil ['@', '{'] ['}'], bareSigil ['@', '{'] ['}'],
    literalRule "<s:union>".toList "\\cup".toList,
    literalRule "<s:intersect>".toList "\\cap".toList,
    literalRule "<s:element>".toList "\\in".toList]

/-- Tagged display text with its sigils, equations and markup replaced. -/
def cleanTagged (text : List Char) : List Char :=
  clean (sigilRules.foldl (fun text rule => replaceAll rule text) (trim text))

end QuizVariants.Markup
