import QuizVariants.Proofs.Literal.Division

/-! Outside of strings.
Brackets count where they stand outside of strings. Behind a text whose strings are closed, the
scan of a list has as many brackets open as the text opens more than it closes.
-/

namespace QuizVariants.Literal

open QuizVariants.Text

/-- The inside of a string: a backslash takes the next character with it, and the mark that ends the
string stands in it behind a backslash only. -/
inductive Inside (mark : Char) : List Char → Prop where
  | nil : Inside mark []
  | escaped (c : Char) {rest : List Char} (more : Inside mark rest) : Inside mark ('\\' :: c :: rest)
  | plain {c : Char} {rest : List Char} (slash : c ≠ '\\') (inner : c ≠ mark)
    (more : Inside mark rest) : Inside mark (c :: rest)

/-- A text whose strings are closed, and its characters outside of them. -/
inductive Outside : (text shown : List Char) → Prop where
  | nil : Outside [] []
  | string {mark : Char} {inner rest shown : List Char} (quote : isQuote mark = true)
    (inside : Inside mark inner) (more : Outside rest shown)
    : Outside (mark :: (inner ++ mark :: rest)) shown
  | plain {c : Char} {rest shown : List Char} (unquoted : isQuote c = false)
    (more : Outside rest shown) : Outside (c :: rest) (c :: shown)

/-- How many brackets more are opened than closed. -/
def level (shown : List Char) : Int :=
  shown.countP opensBracket - shown.countP closesBracket

/-- The strings of a text are closed, and outside of them it leaves some number of brackets open,
which is negative when it closes more than it opens. -/
def LeavesOpen (text : List Char) (number : Int) : Prop :=
  ∃ shown, Outside text shown ∧ level shown = number

-----------------------------------------------------------------------------------------
-- Strings are crossed
-----------------------------------------------------------------------------------------

/-- A quotation mark is no backslash. -/
theorem ne_backslash_of_isQuote {mark : Char} (quote : isQuote mark = true) : mark ≠ '\\' :=
  ne_of_kind quote rfl

/-- The inside of a string does not start with its mark. -/
theorem Inside.head?_ne {mark : Char} {inner : List Char} (h : Inside mark inner)
    (quote : isQuote mark = true)
    : inner.head? ≠ some mark := by
  cases h with
  | nil => exact nofun
  | escaped _ _ => exact fun same => ne_backslash_of_isQuote quote (Option.some.inj same).symm
  | plain _ apart _ => exact fun same => apart (Option.some.inj same)

/-- What stands between the marks of a text in quotes is the inside of a string, by induction on the
text. -/
theorem inside_escaped (text : List Char) : Inside '"' (text.flatMap escapeChar) := by
  induction text with
  | nil => exact .nil
  | cons c text ih =>
      rw [List.flatMap_cons]
      rcases escapeChar_cases c with ⟨same, slash, mark, _⟩ | ⟨d, escaped, _⟩
      · rw [same]
        exact .plain slash mark ih
      · rw [escaped]
        exact .escaped d ih

/-- A scan leaves a string at its mark, by induction on the inside of the string. -/
theorem Inside.foldl_step {mark : Char} {inner : List Char} (h : Inside mark inner)
    (quote : isQuote mark = true) (depth : Int) (rest : List Char)
    : (inner ++ mark :: rest).foldl Place.step ⟨depth, some mark, false⟩
        = rest.foldl Place.step ⟨depth, none, false⟩ := by
  induction h with
  | nil =>
      have slash := ne_backslash_of_isQuote quote
      simp [Place.step, slash]
  | escaped c more ih => simpa [Place.step] using ih
  | plain slash inner more ih => simpa [Place.step, slash, inner] using ih

/-- A string that a scan leaves has an inside, by recursion on the text from its mark on. -/
theorem exists_inside {mark : Char} {depth : Int} {text : List Char}
    (h : (text.foldl Place.step ⟨depth, some mark, false⟩).mark = none)
    : ∃ inner rest, text = inner ++ mark :: rest ∧ Inside mark inner := by
  match text with
  | [] => exact nomatch h
  | c :: rest =>
      rw [List.foldl_cons] at h
      by_cases slash : c = '\\'
      · obtain _ | ⟨d, rest⟩ := rest
        · simp [Place.step, slash] at h
        · have later : (rest.foldl Place.step ⟨depth, some mark, false⟩).mark = none := by
            simpa [Place.step, slash] using h
          obtain ⟨inner, behind, rfl, inside⟩ := exists_inside later
          exact ⟨c :: d :: inner, behind, rfl, slash ▸ .escaped d inside⟩
      · by_cases ends : c = mark
        · exact ⟨[], rest, by rw [ends, List.nil_append], .nil⟩
        · have later : (rest.foldl Place.step ⟨depth, some mark, false⟩).mark = none := by
            simpa [Place.step, slash, ends] using h
          obtain ⟨inner, behind, rfl, inside⟩ := exists_inside later
          exact ⟨c :: inner, behind, rfl, .plain slash ends inside⟩

-----------------------------------------------------------------------------------------
-- The depth of a scan
-----------------------------------------------------------------------------------------

theorem level_cons (c : Char) (shown : List Char)
    : level (c :: shown)
        = (if opensBracket c then 1 else 0) - (if closesBracket c then 1 else 0)
          + level shown := by
  simp only [level, List.countP_cons]
  split <;> split <;> omega

/-- Outside of strings a scan goes on with a character that is no quotation mark. -/
theorem step_of_unquoted {c : Char} (unquoted : isQuote c = false) (depth : Int)
    : Place.step ⟨depth, none, false⟩ c
        = ⟨depth + ((if opensBracket c then 1 else 0) - (if closesBracket c then 1 else 0)),
          none, false⟩ := by
  have apart : opensBracket c = true → closesBracket c = false := by
    simp only [opensBracket, closesBracket, Bool.or_eq_true, beq_iff_eq]
    rintro ((rfl | rfl) | rfl) <;> rfl
  by_cases opens : opensBracket c = true
  · simp [Place.step, unquoted, opens, apart opens]
  · by_cases closes : closesBracket c = true
    · simp [Place.step, unquoted, opens, closes]
      omega
    · simp [Place.step, unquoted, opens, closes]

/-- A scan counts the brackets outside of strings, by induction on the text. -/
theorem Outside.foldl_step {text shown : List Char} (h : Outside text shown) (depth : Int)
    : text.foldl Place.step ⟨depth, none, false⟩ = ⟨depth + level shown, none, false⟩ := by
  induction h generalizing depth with
  | nil => simp [level]
  | @string mark inner rest shown quote inside more ih =>
      have opens : Place.step ⟨depth, none, false⟩ mark = ⟨depth, some mark, false⟩ := by
        simp [Place.step, quote]
      rw [List.foldl_cons, opens, inside.foldl_step quote, ih]
  | plain unquoted more ih =>
      rw [List.foldl_cons, step_of_unquoted unquoted, ih, level_cons, Int.add_assoc]

/-- A text that a scan leaves outside of strings has all of them closed, by recursion on the
text. -/
theorem exists_outside {depth : Int} {text : List Char}
    (h : (text.foldl Place.step ⟨depth, none, false⟩).mark = none)
    : ∃ shown, Outside text shown := by
  match text with
  | [] => exact ⟨[], .nil⟩
  | c :: rest =>
      rw [List.foldl_cons] at h
      cases quote : isQuote c with
      | true =>
          have opens : Place.step ⟨depth, none, false⟩ c = ⟨depth, some c, false⟩ := by
            simp [Place.step, quote]
          rw [opens] at h
          obtain ⟨inner, behind, split, inside⟩ := exists_inside h
          have shorter : behind.length < (c :: rest).length := by
            simp only [split, List.length_append, List.length_cons]
            omega
          rw [split, inside.foldl_step quote] at h
          obtain ⟨shown, more⟩ := exists_outside h
          exact ⟨shown, split ▸ .string quote inside more⟩
      | false =>
          rw [step_of_unquoted quote] at h
          obtain ⟨shown, more⟩ := exists_outside h
          exact ⟨c :: shown, .plain quote more⟩
termination_by text.length

/-- The brackets that a text leaves open are those that a scan has open behind it. -/
theorem leavesOpen_iff {text : List Char} {number : Int}
    : LeavesOpen text number ↔ text.foldl Place.step .start = ⟨number, none, false⟩ := by
  constructor
  · rintro ⟨shown, outside, rfl⟩
    have scanned := outside.foldl_step 0
    rwa [Int.zero_add] at scanned
  · intro scanned
    obtain ⟨shown, outside⟩ := exists_outside (congrArg Place.mark scanned)
    have counted := (outside.foldl_step 0).symm.trans scanned
    rw [Int.zero_add] at counted
    exact ⟨shown, outside, congrArg Place.depth counted⟩

end QuizVariants.Literal
