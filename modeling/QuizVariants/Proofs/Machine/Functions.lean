import QuizVariants.Library.Builtin
import QuizVariants.Proofs.Machine.Operations

/-! Numeric functions on a machine.
A function first refuses keyword arguments and checks how many arguments there are, and then takes
them from their places.
-/

namespace QuizVariants.Machine

open QuizVariants.Library

-----------------------------------------------------------------------------------------
-- Arguments
-----------------------------------------------------------------------------------------

/-- Takes out the first keyword argument with a name. -/
def keyword (args : Arguments) (name : String) : Result (Option Value × Arguments) :=
  match args.keywords.findIdx? (fun argument => argument.1 = name) with
  | none => return (none, args)
  | some place => do
    let argument ← itemAt args.keywords place
    return (some argument.2, { args with keywords := args.keywords.eraseIdx place })

def rejectKeywords (args : Arguments) (function : String) : Result Unit :=
  match args.keywords with
  | [] => return ()
  | (key, _) :: _ => throw (.error (.invalidArgument function (.unexpectedKeyword key)))

/-- Checks how many arguments there are. -/
def arity (args : Arguments) (function expected : String) (least most : Nat) : Result Unit :=
  let got := args.positional.length
  if got < least ∨ most < got then throw (.error (.arity function expected got)) else return ()

theorem arity_of_outside {args : Arguments} {function expected : String} {least most : Nat}
    (h : args.positional.length < least ∨ most < args.positional.length)
    : arity args function expected least most
        = .error (.error (.arity function expected args.positional.length)) :=
  if_pos h

/-- The argument of a function of one argument. -/
def single (args : Arguments) (function : String) : Result Value := do
  rejectKeywords args function
  arity args function "1" 1 1
  itemAt args.positional 0

/-- A keyword argument is the one at the first place with its name, by induction on the keyword
arguments. -/
theorem takeKeyword_eq (name : String) (keywords : List (String × Value))
    : Arguments.takeKeyword name keywords
        = match keywords.findIdx? (fun argument => argument.1 = name) with
          | none => (none, keywords)
          | some place => (keywords[place]?.map Prod.snd, keywords.eraseIdx place) := by
  induction keywords with
  | nil => rfl
  | cons argument keywords ih =>
      obtain ⟨key, value⟩ := argument
      rw [Arguments.takeKeyword, List.findIdx?_cons]
      by_cases same : key = name
      · simp [same]
      · simp only [same, ↓reduceIte, decide_false, Bool.false_eq_true, ih]
        cases keywords.findIdx? (fun argument => argument.1 = name) <;> rfl

theorem keyword_eq (args : Arguments) (name : String)
    : keyword args name = .ok (args.keyword name) := by
  rw [keyword, Arguments.keyword, takeKeyword_eq]
  cases found : args.keywords.findIdx? (fun argument => argument.1 = name) with
  | none => rfl
  | some place =>
      obtain ⟨inside, _⟩ := List.findIdx?_eq_some_iff_getElem.mp found
      have argument := List.getElem?_eq_getElem inside
      simp only [itemAt_of_getElem? argument, argument]
      rfl

theorem single_eq (args : Arguments) (function : String)
    : single args function = ofExcept (args.single function) := by
  obtain ⟨positional, _ | ⟨⟨key, value⟩, keywords⟩⟩ := args
  · rcases positional with _ | ⟨first, _ | ⟨second, others⟩⟩
    · rfl
    · rfl
    · rw [single, arity_of_outside (by simp)]
      rfl
  · rfl

-----------------------------------------------------------------------------------------
-- Numeric functions
-----------------------------------------------------------------------------------------

namespace Functions

def abs (args : Arguments) : Result Value := do
  match ← single args "abs" with
  | .number r => return .number (← Machine.abs r)
  | .float x => return .float x.abs
  | value => ofExcept (notNumber value)

/-- A word as a fraction. -/
def integer (n : Int) : Result Value := do
  return .number (← lowest n 1)

def ceil (args : Arguments) : Result Value := do
  match ← single args "ceil" with
  | .number r => integer (← Machine.ceil r)
  | .float x => ofExcept (Value.ofWhole (Decimal.ceil? x))
  | value => ofExcept (notNumber value)

def floor (args : Arguments) : Result Value := do
  match ← single args "floor" with
  | .number r => integer (← Machine.floor r)
  | .float x => ofExcept (Value.ofWhole (Decimal.floor? x))
  | value => ofExcept (notNumber value)

/-- The base of the places to which a number is rounded is a word. -/
theorem fits_ten : Fits 10 := by decide

/-- A fraction rounded to `digits` places. -/
def roundRational (r : Rational) (digits : Int) : Result Rational := do
  let scale ← pow (.integer 10 fits_ten) digits
  let whole ← Machine.round (← mul r scale)
  div (← lowest whole 1) scale

/-- The number of places to round to, if there is one. -/
def digits? (args : Arguments) : Result (Option Int) :=
  match args.positional[1]? with
  | some digits => do return some (← ofExcept digits.toInteger)
  | none => return none

/-- A number rounded to a whole one. -/
def roundWhole (value : Value) : Result Value := do
  match value with
  | .number r => integer (← Machine.round r)
  | .float x => ofExcept (Value.ofWhole (Decimal.nearest? x))
  | value => ofExcept (notNumber value)

/-- A number rounded to `digits` places. -/
def roundTo (value : Value) (digits : Int) : Result Value := do
  match value with
  | .number r => return .number (← roundRational r digits)
  | .float x => return .float (← ofExcept (Library.roundFloat x digits))
  | value => ofExcept (notNumber value)

def round (args : Arguments) : Result Value := do
  rejectKeywords args "round"
  arity args "round" "1 or 2" 1 2
  let digits? ← digits? args
  let value ← itemAt args.positional 0
  match digits? with
  | none => roundWhole value
  | some digits => roundTo value digits

/-- The order of two values that have one. -/
def order (left right : Value) : Result Ordering := do
  match ← order? left right with
  | some order => return order
  | none => throw (.error (.operands .unorderedNan))

def extremum (function : String) (wanted : Ordering) (args : Arguments) : Result Value := do
  rejectKeywords args function
  match Arguments.spread args.positional with
  | [] => throw (.error (.invalidArgument function .noValues))
  | first :: rest =>
    rest.foldlM
      (fun best value => do return if (← order value best) == wanted then value else best) first

def fraction (args : Arguments) : Result Value := do
  rejectKeywords args "fraction"
  arity args "fraction" "1 or 2" 1 2
  let num ← ofExcept (requireExact (← itemAt args.positional 0))
  match args.positional[1]? with
  | some den => return .number (← div num (← ofExcept (requireExact den)))
  | none => return .number (← div num 1)

def sqrt (args : Arguments) : Result Value := do
  match ← single args "sqrt" with
  | .number r =>
    if r.isNegative then throw (.error (.invalidArgument "sqrt" (.negativeRadicand r.text)))
    else
      match ← sqrt? r with
      | some root => return .number root
      | none => return .float r.toFloat.sqrt
  | .float x =>
    if x < 0.0 then
      throw (.error (.invalidArgument "sqrt" (.negativeRadicand (Decimal.Layout.plain.write x))))
    else return .float x.sqrt
  | value => ofExcept (notNumber value)

def isNegative (function : String) (value : Value) : Result Bool := do
  ofExcept (requireNumber function value)
  return (← order value (.number 0)) == .lt

def signsymbol (args : Arguments) : Result Value := do
  let value ← single args "signsymbol"
  return .string (if ← isNegative "signsymbol" value then "-" else "+")

def negativeSign (args : Arguments) : Result Value := do
  let value ← single args "signsymbol_neg"
  return .string (if ← isNegative "signsymbol_neg" value then "-" else "")

def testHolds (symbol : Option String) (left right : Value) : Result Bool :=
  match symbol with
  | some "=" => return left.looselyEquals right
  | some ">" => do return (← order left right) == .gt
  | some ">=" => do return (← order left right) != .lt
  | some "<" => do return (← order left right) == .lt
  | some "<=" => do return (← order left right) != .gt
  | _ => return true

def ifelse (args : Arguments) : Result Value := do
  rejectKeywords args "ifelse"
  arity args "ifelse" "5" 5 5
  match args.positional with
  | left :: right :: symbol :: whenTrue :: whenFalse :: _ =>
    return if ← testHolds symbol.string? left right then whenTrue else whenFalse
  | _ => throw (.error (.arity "ifelse" "5" 0))

theorem abs_eq (args : Arguments) : abs args = ofExcept (Library.abs args) := by
  rw [abs, Library.abs, single_eq, ofExcept_bind]
  congr 1
  funext value
  cases value with
  | number r => exact map_number_eq (Machine.abs_eq r)
  | _ => rfl

theorem integer_eq {n : Int} (fits : Fits n) : integer n = .ok (.integer n fits) := by
  rw [integer, lowest_one fits]
  rfl

theorem ceil_eq (args : Arguments) : ceil args = ofExcept (Library.ceil args) := by
  rw [ceil, Library.ceil, single_eq, ofExcept_bind]
  congr 1
  funext value
  cases value with
  | number r =>
      simp only [Machine.ceil_eq, ok_bind, integer_eq r.fits_ceil]
      rfl
  | _ => rfl

theorem floor_eq (args : Arguments) : floor args = ofExcept (Library.floor args) := by
  rw [floor, Library.floor, single_eq, ofExcept_bind]
  congr 1
  funext value
  cases value with
  | number r =>
      simp only [Machine.floor_eq, ok_bind, integer_eq r.fits_floor]
      rfl
  | _ => rfl

theorem roundRational_eq (r : Rational) (digits : Int)
    : roundRational r digits = ofExcept (exactly (Library.roundRational r digits)) := by
  rw [roundRational, Library.roundRational, pow_eq]
  cases (Rational.integer 10).pow digits with
  | error fault => rfl
  | ok scale =>
      simp only [ofExcept_exactly_ok, ok_bind, mul_eq]
      change _ = ofExcept (exactly (Rational.mul _ _ >>= _))
      cases r.mul scale with
      | error fault => rfl
      | ok scaled =>
          simp only [ofExcept_exactly_ok, ok_bind, Machine.round_eq, lowest_one scaled.fits_round]
          exact div_eq _ _

theorem round_eq (args : Arguments) : round args = ofExcept (Library.round args) := by
  obtain ⟨positional, _ | ⟨⟨key, value⟩, keywords⟩⟩ := args
  · rcases positional with _ | ⟨value, _ | ⟨digits, _ | ⟨third, others⟩⟩⟩
    · rfl
    · change roundWhole value = _
      cases value with
      | number r =>
          rw [roundWhole, Machine.round_eq, ok_bind, integer_eq r.fits_round]
          rfl
      | _ => rfl
    · have steps : round ⟨[value, digits], []⟩ = ofExcept digits.toInteger >>= roundTo value := by
        change (ofExcept digits.toInteger >>= fun n => Except.ok (some n)) >>= _ = _
        rw [bind_assoc]
        rfl
      have result : Library.round ⟨[value, digits], []⟩
          = digits.toInteger >>= fun n =>
            match value with
            | .number r => (exactly (Library.roundRational r n)).map .number
            | .float x => (Library.roundFloat x n).map .float
            | value => notNumber value := by
        cases value <;> rfl
      rw [steps, result, ofExcept_bind]
      congr 1
      funext n
      cases value with
      | number r => exact map_number_eq (roundRational_eq r n)
      | float x =>
          rw [roundTo]
          dsimp only
          cases Library.roundFloat x n <;> rfl
      | _ => rfl
    · have result : Library.round ⟨value :: digits :: third :: others, []⟩
          = .error (.arity "round" "1 or 2" (others.length + 3)) := by
        cases value <;> rfl
      rw [result, round, arity_of_outside (by simp)]
      rfl
  · rfl

theorem order_eq (left right : Value) : order left right = ofExcept (left.order right) := by
  rw [order, order?_eq, Value.order, ofExcept_bind]
  congr 1
  funext order?
  cases order? <;> rfl

/-- The fold over the values takes the same steps, by induction on the values. -/
theorem extremum_eq (function : String) (wanted : Ordering) (args : Arguments)
    : extremum function wanted args = ofExcept (Library.extremum function wanted args) := by
  have fold (first : Value) (rest : List Value)
      : (rest.foldlM
          (fun best value => do return if (← order value best) == wanted then value else best)
          first : Result Value)
        = ofExcept (rest.foldlM
            (fun best value => do
              return if (← value.order best) == wanted then value else best) first) := by
    induction rest generalizing first with
    | nil => rfl
    | cons value rest ih =>
        rw [List.foldlM_cons, List.foldlM_cons, order_eq]
        cases value.order first with
        | error fault => rfl
        | ok found => exact ih _
  obtain ⟨positional, _ | ⟨⟨key, value⟩, keywords⟩⟩ := args
  · rw [extremum, Library.extremum, rejectKeywords, Arguments.withoutKeywords]
    simp only [pure_bind]
    change _ = ofExcept (match Arguments.spread positional with | [] => _ | _ :: _ => _)
    cases Arguments.spread positional with
    | nil => rfl
    | cons first rest => exact fold first rest
  · rfl

theorem fraction_eq (args : Arguments) : fraction args = ofExcept (Library.fraction args) := by
  obtain ⟨positional, _ | ⟨⟨key, value⟩, keywords⟩⟩ := args
  · rcases positional with _ | ⟨num, _ | ⟨den, _ | ⟨third, others⟩⟩⟩
    · rfl
    · cases num with
      | number r => exact map_number_eq (div_eq r 1)
      | _ => rfl
    · cases num with
      | number r =>
          cases den with
          | number s => exact map_number_eq (div_eq r s)
          | _ => rfl
      | _ => rfl
    · rw [fraction, arity_of_outside (by simp)]
      rfl
  · rfl

theorem sqrt_eq (args : Arguments) : sqrt args = ofExcept (Library.sqrt args) := by
  rw [sqrt, Library.sqrt, single_eq, ofExcept_bind]
  congr 1
  funext value
  cases value with
  | number r =>
      simp only [sqrt?_eq, ok_bind]
      split
      · rfl
      · cases r.sqrt? <;> rfl
  | float x =>
      dsimp only
      split <;> rfl
  | _ => rfl

theorem isNegative_eq (function : String) (value : Value)
    : isNegative function value = ofExcept (Library.isNegative function value) := by
  simp only [isNegative, Library.isNegative, order_eq, ofExcept_bind]
  rfl

theorem signsymbol_eq (args : Arguments)
    : signsymbol args = ofExcept (Library.signsymbol args) := by
  simp only [signsymbol, Library.signsymbol, single_eq, isNegative_eq, ofExcept_bind]
  rfl

theorem negativeSign_eq (args : Arguments)
    : negativeSign args = ofExcept (Library.negativeSign args) := by
  simp only [negativeSign, Library.negativeSign, single_eq, isNegative_eq, ofExcept_bind]
  rfl

theorem testHolds_eq (symbol : Option String) (left right : Value)
    : testHolds symbol left right = ofExcept (Library.testHolds symbol left right) := by
  fun_cases testHolds symbol left right with
  | case1 => rfl
  | case2 | case3 | case4 | case5 =>
      rw [order_eq]
      unfold Library.testHolds
      cases left.order right <;> rfl
  | case6 =>
      unfold Library.testHolds
      split <;> first | rfl | exact absurd rfl ‹_›

theorem ifelse_eq (args : Arguments) : ifelse args = ofExcept (Library.ifelse args) := by
  obtain ⟨positional, _ | ⟨⟨key, value⟩, keywords⟩⟩ := args
  · rcases positional with _ | ⟨a, _ | ⟨b, _ | ⟨c, _ | ⟨d, _ | ⟨e, _ | ⟨f, others⟩⟩⟩⟩⟩⟩
    · rfl
    · rfl
    · rfl
    · rfl
    · rfl
    · have steps : ifelse ⟨[a, b, c, d, e], []⟩
          = testHolds c.string? a b >>= fun holds => .ok (if holds then d else e) := rfl
      have result : Library.ifelse ⟨[a, b, c, d, e], []⟩
          = Library.testHolds c.string? a b >>= fun holds => .ok (if holds then d else e) := rfl
      rw [steps, result, testHolds_eq, ofExcept_bind]
      rfl
    · rw [ifelse, arity_of_outside (by simp)]
      rfl
  · rfl

end Functions

end QuizVariants.Machine
