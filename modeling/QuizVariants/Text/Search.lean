/-! Searching and replacing in text.
Every search is for the leftmost match, and a replacement never looks at what it wrote.
-/

namespace QuizVariants.Text

/-- What follows `pattern` in a text that starts with it. -/
def after? : (pattern text : List Char) → Option (List Char)
  | [], text => some text
  | _ :: _, [] => none
  | p :: pattern, c :: text => if p = c then after? pattern text else none

/-- What precedes `pattern` in a text that ends with it. -/
def before? (pattern text : List Char) : Option (List Char) :=
  (after? pattern.reverse text.reverse).map List.reverse

/-- Splits a text at the first place where `pattern` occurs. -/
def breakOn (pattern : List Char) : List Char → Option (List Char × List Char)
  | [] => if pattern.isEmpty then some ([], []) else none
  | c :: rest =>
    match after? pattern (c :: rest) with
    | some after => some ([], after)
    | none => (breakOn pattern rest).map (fun split => (c :: split.1, split.2))

/-- Splits a text at the first place where one of `patterns` occurs and no newline stands
before it. -/
def breakInLine (patterns : List (List Char)) : List Char → Option (List Char × List Char)
  | [] => none
  | c :: rest =>
    match patterns.findSome? (fun pattern => after? pattern (c :: rest)) with
    | some after => some ([], after)
    | none =>
      if c = '\n' then none
      else (breakInLine patterns rest).map (fun split => (c :: split.1, split.2))

def occurs (pattern text : List Char) : Bool :=
  (breakOn pattern text).isSome

/-- Replaces every match of `rule` from left to right.
A rule gives the replacement of a match at the start of a text and what follows the match;
a match that takes no character is passed over. -/
def replaceAll (rule : List Char → Option (List Char × List Char)) : List Char → List Char
  | [] => []
  | c :: rest =>
    match rule (c :: rest) with
    | some (output, after) =>
      if after.length ≤ rest.length then output ++ replaceAll rule after
      else c :: replaceAll rule rest
    | none => c :: replaceAll rule rest
termination_by text => text.length

def literalRule (pattern replacement text : List Char) : Option (List Char × List Char) :=
  (after? pattern text).map (fun after => (replacement, after))

def splitAt (separator : Char) : List Char → List (List Char)
  | [] => [[]]
  | c :: rest =>
    if c = separator then [] :: splitAt separator rest
    else
      match splitAt separator rest with
      | [] => [[c]]
      | part :: parts => (c :: part) :: parts

def joinWith (separator : List Char) : List (List Char) → List Char
  | [] => []
  | [part] => part
  | part :: parts => part ++ separator ++ joinWith separator parts

/-- A text starts with a pattern exactly when it is the pattern and what follows. -/
theorem after?_eq_some_iff {pattern text rest : List Char}
    : after? pattern text = some rest ↔ text = pattern ++ rest := by
  induction pattern generalizing text with
  | nil => simp [after?, eq_comm]
  | cons p pattern ih =>
    cases text with
    | nil => simp [after?]
    | cons c text =>
      by_cases h : p = c
      · simp [after?, h, ih]
      · simp [after?, h, Ne.symm h]

/-- The parts of a split text joined give the text back, up to the place of the break. -/
theorem append_of_breakOn {pattern text before after : List Char}
    (h : breakOn pattern text = some (before, after))
    : before ++ pattern ++ after = text := by
  induction text generalizing before with
  | nil =>
    simp only [breakOn] at h
    split at h <;> simp_all
  | cons c text ih =>
    simp only [breakOn] at h
    split at h
    · next found =>
      simp only [Option.some.injEq, Prod.mk.injEq] at h
      obtain ⟨rfl, rfl⟩ := h
      simpa using (after?_eq_some_iff.mp found).symm
    · cases hb : breakOn pattern text with
      | none => simp [hb] at h
      | some split =>
        simp only [hb, Option.map_some, Option.some.injEq, Prod.mk.injEq] at h
        obtain ⟨rfl, rfl⟩ := h
        simp [← ih hb]

end QuizVariants.Text
