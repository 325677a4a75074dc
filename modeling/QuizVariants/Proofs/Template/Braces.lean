import QuizVariants.Template.Basic

/-! Open braces.
A placeholder ends at the brace that brings the count of open braces back to zero. The count goes
on from part to part of a text, and it never stops at fewer braces when it starts with more.
-/

namespace QuizVariants.Template

open QuizVariants.Text

/-- The number of open braces after a text, unless the text closes more than are open. -/
def depth? (depth : Nat) : List Char → Option Nat
  | [] => some depth
  | c :: rest =>
    if c = '{' then depth? (depth + 1) rest
    else if c = '}' then
      match depth with
      | 0 => none
      | depth + 1 => depth? depth rest
    else depth? depth rest

theorem depth?_open (depth : Nat) (rest : List Char)
    : depth? depth ('{' :: rest) = depth? (depth + 1) rest :=
  rfl

theorem depth?_close_zero (rest : List Char) : depth? 0 ('}' :: rest) = none :=
  rfl

theorem depth?_close_succ (depth : Nat) (rest : List Char)
    : depth? (depth + 1) ('}' :: rest) = depth? depth rest :=
  rfl

theorem depth?_other {c : Char} (opens : c ≠ '{') (closes : c ≠ '}') (depth : Nat)
    (rest : List Char)
    : depth? depth (c :: rest) = depth? depth rest := by
  rw [depth?.eq_def]
  simp only [if_neg opens, if_neg closes]

/-- The braces of a text are counted part by part, by induction on the first part. -/
theorem depth?_append (depth : Nat) (first second : List Char)
    : depth? depth (first ++ second)
        = (depth? depth first).bind (fun depth => depth? depth second) := by
  induction first generalizing depth with
  | nil => rfl
  | cons c first ih =>
      rw [List.cons_append]
      by_cases opens : c = '{'
      · subst opens
        exact ih (depth + 1)
      · by_cases closes : c = '}'
        · subst closes
          cases depth with
          | zero => rfl
          | succ depth => exact ih depth
        · rw [depth?_other opens closes, depth?_other opens closes, ih]

theorem closeBrace?_open (depth : Nat) (rest : List Char)
    : closeBrace? depth ('{' :: rest)
        = (closeBrace? (depth + 1) rest).map (fun split => ('{' :: split.1, split.2)) :=
  rfl

theorem closeBrace?_close_succ (depth : Nat) (rest : List Char)
    : closeBrace? (depth + 1) ('}' :: rest)
        = (closeBrace? depth rest).map (fun split => ('}' :: split.1, split.2)) :=
  rfl

theorem closeBrace?_other {c : Char} (opens : c ≠ '{') (closes : c ≠ '}') (depth : Nat)
    (rest : List Char)
    : closeBrace? depth (c :: rest)
        = (closeBrace? depth rest).map (fun split => (c :: split.1, split.2)) := by
  rw [closeBrace?.eq_def]
  simp only [if_neg opens, if_neg closes]

/-- A text is closed behind a part of it that leaves no brace open, by induction on that part. -/
theorem closeBrace?_append {depth : Nat} {inner : List Char} (h : depth? depth inner = some 0)
    (rest : List Char)
    : closeBrace? depth (inner ++ '}' :: rest) = some (inner, rest) := by
  induction inner generalizing depth with
  | nil =>
      obtain rfl := Option.some.inj h
      rfl
  | cons c inner ih =>
      rw [List.cons_append]
      by_cases opens : c = '{'
      · subst opens
        rw [closeBrace?_open, ih h]
        rfl
      · by_cases closes : c = '}'
        · subst closes
          cases depth with
          | zero => exact nomatch h
          | succ depth =>
              rw [closeBrace?_close_succ, ih h]
              rfl
        · rw [depth?_other opens closes] at h
          rw [closeBrace?_other opens closes, ih h]
          rfl

/-- A text either closes its last open brace or does not close more braces than are open, by
induction on it. -/
theorem closeBrace?_cases (depth : Nat) (text : List Char)
    : (∃ inner rest, text = inner ++ '}' :: rest ∧ depth? depth inner = some 0)
      ∨ closeBrace? depth text = none ∧ (depth? depth text).isSome := by
  induction text generalizing depth with
  | nil => exact Or.inr ⟨rfl, rfl⟩
  | cons c text ih =>
      have step {next : Nat} (deeper : ∀ rest, depth? depth (c :: rest) = depth? next rest)
          (goes : closeBrace? depth (c :: text)
            = (closeBrace? next text).map (fun split => (c :: split.1, split.2)))
          : (∃ inner rest, c :: text = inner ++ '}' :: rest ∧ depth? depth inner = some 0)
            ∨ closeBrace? depth (c :: text) = none ∧ (depth? depth (c :: text)).isSome := by
        rcases ih next with ⟨inner, rest, rfl, closed⟩ | ⟨none, left⟩
        · exact Or.inl ⟨c :: inner, rest, rfl, (deeper inner).trans closed⟩
        · exact Or.inr ⟨by rw [goes, none]; rfl, by rwa [deeper]⟩
      by_cases opens : c = '{'
      · subst opens
        exact step (fun rest => depth?_open depth rest) (closeBrace?_open depth text)
      · by_cases closes : c = '}'
        · subst closes
          cases depth with
          | zero => exact Or.inl ⟨[], text, rfl, rfl⟩
          | succ depth => exact step (fun rest => depth?_close_succ depth rest) rfl
        · exact step (fun rest => depth?_other opens closes depth rest)
            (closeBrace?_other opens closes depth text)

/-- A text is not closed as long as it does not close more braces than are open. -/
theorem closeBrace?_eq_none_iff {depth : Nat} {text : List Char}
    : closeBrace? depth text = none ↔ (depth? depth text).isSome := by
  rcases closeBrace?_cases depth text with ⟨inner, rest, rfl, closed⟩ | ⟨none, left⟩
  · rw [closeBrace?_append closed, depth?_append, closed, Option.bind_some, depth?_close_zero]
    exact iff_of_false nofun nofun
  · exact ⟨fun _ => left, fun _ => none⟩

/-- More open braces before a text leave more open behind it, by induction on the text. -/
theorem depth?_mono {less more after : Nat} (h : less ≤ more) {text : List Char}
    (left : depth? less text = some after)
    : ∃ after', depth? more text = some after' ∧ after ≤ after' := by
  induction text generalizing less more with
  | nil =>
      obtain rfl := Option.some.inj left
      exact ⟨more, rfl, h⟩
  | cons c text ih =>
      by_cases opens : c = '{'
      · subst opens
        exact ih (Nat.succ_le_succ h) left
      · by_cases closes : c = '}'
        · subst closes
          cases less with
          | zero => exact nomatch left
          | succ less =>
              obtain ⟨more, rfl⟩ := Nat.exists_eq_add_of_le' (Nat.succ_le_of_lt h)
              exact ih (Nat.le_of_succ_le_succ h) left
        · rw [depth?_other opens closes] at left ⊢
          exact ih h left

/-- A text without closing braces leaves all of its braces open, by induction on it. -/
theorem depth?_of_not_mem {text : List Char} (h : '}' ∉ text) (depth : Nat)
    : depth? depth text = some (depth + text.count '{') := by
  induction text generalizing depth with
  | nil => rfl
  | cons c text ih =>
      obtain ⟨closes, others⟩ := not_or.mp (fun member => h (List.mem_cons.mpr member))
      by_cases opens : c = '{'
      · subst opens
        rw [depth?_open, ih others, List.count_cons_self, Nat.add_right_comm, Nat.add_assoc]
      · rw [depth?_other opens (Ne.symm closes), ih others, List.count_cons_of_ne opens]

end QuizVariants.Template
