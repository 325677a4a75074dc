import QuizVariants.Proofs.Machine.Functions

/-! Functions that write numbers, on a machine.
Digits are grouped from left to right by counting those that are left.
-/

namespace QuizVariants.Machine

open QuizVariants.Decimal
open QuizVariants.Library hiding round abs ceil floor

-----------------------------------------------------------------------------------------
-- Digits in groups
-----------------------------------------------------------------------------------------

/-- Whether a group of three digits starts at a place other than the first. -/
def startsGroup (length : Int) (place : Nat) : Result Bool := do
  if 0 < place then return (← count (length - place)) % 3 == 0 else return false

def groupFrom (length : Int) (place : Nat) : List Char → Result (List Char)
  | [] => return []
  | digit :: rest => do
    let starts ← startsGroup length place
    let others ← groupFrom length (place + 1) rest
    return (if starts then [','] else []) ++ digit :: others

/-- Digits in groups of three with commas between them, in a text with room for the commas. -/
def groupThousands (digits : List Char) : Result (List Char) := do
  let length ← lengthOf digits
  let _ ← count (length + length / 3)
  groupFrom length 0 digits

/-- Digits that go on to groups of three, where those before them are not counted. -/
def grouped : List Char → List Char
  | [] => []
  | digit :: rest =>
    (if (rest.length + 1) % 3 = 0 then [','] else []) ++ digit :: grouped rest

/-- Three digits at the end are a group of their own, by induction on the digits before them. -/
theorem grouped_append (digits : List Char) (a b c : Char)
    : grouped (digits ++ [a, b, c]) = grouped digits ++ [',', a, b, c] := by
  induction digits with
  | nil => simp [grouped]
  | cons digit rest ih =>
      have length : (rest ++ [a, b, c]).length + 1 = rest.length + 1 + 3 := by simp
      rw [List.cons_append, grouped, ih, length, Nat.add_mod_right, grouped]
      simp

/-- Counting digits from the right starts the same groups, by induction on groups of three. -/
theorem reverse_groupReversed (reversed : List Char) (first : Char)
    : (Library.groupReversed (reversed ++ [first])).reverse
        = first :: grouped reversed.reverse := by
  match reversed with
  | [] => rfl
  | [a] => rfl
  | [a, b] => rfl
  | a :: b :: c :: rest =>
      have ih := reverse_groupReversed rest first
      obtain ⟨digit, others, some⟩ : ∃ digit others, rest ++ [first] = digit :: others := by
        cases rest with
        | nil => exact ⟨_, _, rfl⟩
        | cons digit others => exact ⟨_, _, rfl⟩
      rw [some] at ih
      have reverse : (a :: b :: c :: rest).reverse = rest.reverse ++ [c, b, a] := by simp
      rw [reverse, grouped_append, List.cons_append, List.cons_append, List.cons_append, some,
        Library.groupReversed, ← List.cons_append, ← ih]
      simp

/-- No digit that is left is counted below zero, by induction on the digits that are left. -/
theorem groupFrom_eq {length : Int} {place : Nat} {digits : List Char} (started : 0 < place)
    (counted : length = place + digits.length) (memory : length < wordBound)
    : groupFrom length place digits = .ok (grouped digits) := by
  induction digits generalizing place with
  | nil => rfl
  | cons digit rest ih =>
      have left : length - place = (rest.length + 1 : Nat) := by
        rw [counted, List.length_cons]
        omega
      have range : 0 ≤ length - place ∧ length - place < 2 * wordBound := by omega
      have starts : startsGroup length place = .ok ((rest.length + 1) % 3 == 0) := by
        rw [startsGroup, if_pos started, count, if_pos range, left, Int.toNat_natCast]
        rfl
      have others := ih (Nat.succ_pos place) (by rw [counted, List.length_cons]; omega)
      rw [groupFrom, starts, ok_bind, others, grouped]
      simp

theorem KeepsTo.groupThousands (digits : List Char)
    : KeepsTo (groupThousands digits) (.ok (Library.groupThousands digits)) := by
  rw [Machine.groupThousands, lengthOf]
  split
  · next memory =>
    left
    have room : 0 ≤ (digits.length : Int) + digits.length / 3
        ∧ (digits.length : Int) + digits.length / 3 < 2 * wordBound := by omega
    rw [ok_bind, count, if_pos room, ok_bind]
    cases digits with
    | nil => rfl
    | cons first rest =>
        have others := @groupFrom_eq (rest.length + 1) 1 rest Nat.one_pos (by omega)
          (by simpa using memory)
        have whole : Library.groupThousands (first :: rest) = first :: grouped rest := by
          have reversed := reverse_groupReversed rest.reverse first
          rwa [List.reverse_reverse, ← List.reverse_cons] at reversed
        rw [groupFrom, whole, List.length_cons, Nat.cast_add_one, Nat.zero_add, others]
        rfl
  · exact Or.inr rfl

-----------------------------------------------------------------------------------------
-- Numbers with groups
-----------------------------------------------------------------------------------------

namespace Functions

def groupedInteger (n : Int) : Result (List Char) := do
  return (if n < 0 then ['-'] else []) ++ (← groupThousands (digitsOf n.natAbs))

/-- A float to two places with its digits in groups. -/
def groupedFloat (x : Float) : Result (List Char) := do
  let text := fixed 2 x.abs
  let sign := x < 0.0 && text.any (fun c => c.isDigit && c != '0')
  let whole ← groupThousands (text.takeWhile (· != '.'))
  return (if sign then ['-'] else []) ++ whole ++ text.dropWhile (· != '.')

def commas (args : Arguments) : Result Value := do
  match ← single args "commas" with
  | .number r =>
    if r.isInteger then return .string (.ofList (← groupedInteger r.num))
    else return .string (.ofList (← groupedFloat r.toFloat))
  | .float x => return .string (.ofList (← groupedFloat x))
  | value => return value

/-- Writes the fraction of two integers in lowest terms, or the integer that it is. -/
def writeRatio (style : FractionStyle) (args : Arguments) : Result Value := do
  let num ← ofExcept (← itemAt args.positional 0).toInteger
  let den ← ofExcept (← itemAt args.positional 1).toInteger
  let r ← ratio num den
  let size ← Machine.abs r
  if size.isInteger then
    if r.isNegative then return .string (Algebra.integerMarkup (← word (-size.num)))
    else return .string (Algebra.integerMarkup size.num)
  else return .string (withMinus r.isNegative (style.write size))

/-- Writes a fraction; a number that is none is left as it is. -/
def writeFraction (style : FractionStyle) (args : Arguments) : Result Value := do
  rejectKeywords args style.function
  arity args style.function "1 or 2" 1 2
  if args.positional.length = 2 then writeRatio style args
  else
    match ← itemAt args.positional 0 with
    | .number r =>
      if r.isInteger then return .number r
      else
        let size ← Machine.abs r
        return .string (withMinus r.isNegative (style.write size))
    | value =>
      ofExcept (requireNumber style.function value)
      return value

theorem keepsTo_groupedInteger (n : Int)
    : KeepsTo (groupedInteger n) (.ok (Library.groupedInteger n)) := by
  rcases KeepsTo.groupThousands (digitsOf n.natAbs) with same | ended
  · left
    rw [groupedInteger, same, Library.groupedInteger]
    rfl
  · right
    rw [groupedInteger, ended]
    rfl

theorem keepsTo_groupedFloat (x : Float)
    : KeepsTo (groupedFloat x) (.ok (Library.groupedFloat x)) := by
  simp only [groupedFloat, Library.groupedFloat]
  generalize fixed 2 x.abs = text
  rcases KeepsTo.groupThousands (text.takeWhile (· != '.')) with same | ended
  · left
    rw [same]
    rfl
  · right
    rw [ended]
    rfl

theorem keepsTo_commas (args : Arguments) : KeepsTo (commas args) (Library.commas args) := by
  have text {digits : Result (List Char)} {result : List Char}
      (h : KeepsTo digits (.ok result))
      : KeepsTo (do return Value.string (.ofList (← digits))) (.ok (.string (.ofList result))) :=
    h.bind (fun _ _ => .ok _)
  rw [commas, single_eq]
  refine (KeepsTo.ofExcept _).bind (fun value _ => ?_)
  cases value with
  | number r =>
      dsimp only
      split
      · exact text (keepsTo_groupedInteger r.num)
      · exact text (keepsTo_groupedFloat r.toFloat)
  | float x => exact text (keepsTo_groupedFloat x)
  | _ => exact .ok _

/-- The size of a fraction is not negative, so that its numerator has an opposite that is a word. -/
theorem writeRatio_eq (style : FractionStyle) (num den : Value)
    : writeRatio style ⟨[num, den], []⟩ = ofExcept (Library.writeRatio style num den) := by
  change ofExcept num.toInteger >>= _ = ofExcept (num.toInteger >>= _)
  cases top : num.toInteger with
  | error fault => rfl
  | ok n =>
  change ofExcept den.toInteger >>= _ = ofExcept (den.toInteger >>= _)
  cases bottom : den.toInteger with
  | error fault => rfl
  | ok d =>
  have reduced := ratio_eq (inPair_of_fits (fits_toInteger top))
    (inPair_of_fits (fits_toInteger bottom))
  change ratio n d >>= _ = ofExcept (exactly (Rational.ofRatio n d) >>= _)
  rw [reduced]
  cases Rational.ofRatio n d with
  | error fault => rfl
  | ok r =>
  change Machine.abs r >>= _ = ofExcept (exactly r.abs >>= _)
  rw [Machine.abs_eq]
  cases found : r.abs with
  | error fault => rfl
  | ok size =>
  have opposite : Fits (-size.num) := by
    have nonnegative : 0 ≤ size.num := (Rational.parts_abs found).1 ▸ abs_nonneg r.num
    have fits := size.num_fits
    simp only [Fits, wordBound] at fits ⊢
    omega
  simp only [ofExcept_exactly_ok, ok_bind, word_of_fits opposite]
  change _ = ofExcept (if size.isInteger then _ else _)
  cases size.isInteger <;> cases r.isNegative <;> rfl

theorem writeFraction_eq (style : FractionStyle) (args : Arguments)
    : writeFraction style args = ofExcept (Library.writeFraction style args) := by
  obtain ⟨positional, _ | ⟨⟨key, value⟩, keywords⟩⟩ := args
  · rcases positional with _ | ⟨value, _ | ⟨den, _ | ⟨third, others⟩⟩⟩
    · rfl
    · cases value with
      | number r =>
          have steps : writeFraction style ⟨[.number r], []⟩
              = if r.isInteger then .ok (.number r)
                else do
                  let size ← Machine.abs r
                  return .string (withMinus r.isNegative (style.write size)) := rfl
          have result : Library.writeFraction style ⟨[.number r], []⟩
              = if r.isInteger then .ok (.number r)
                else do
                  let size ← exactly r.abs
                  return .string (withMinus r.isNegative (style.write size)) := rfl
          rw [steps, result, Machine.abs_eq]
          split
          · rfl
          · rw [ofExcept_bind]
            rfl
      | _ => rfl
    · have result : Library.writeFraction style ⟨[value, den], []⟩
          = Library.writeRatio style value den := by
        cases value <;> rfl
      rw [result, ← writeRatio_eq]
      rfl
    · rw [writeFraction, arity_of_outside (by simp)]
      cases value <;> rfl
  · rfl

end Functions

end QuizVariants.Machine
