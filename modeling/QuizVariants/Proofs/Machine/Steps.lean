import QuizVariants.Proofs.Draws.Runs

/-! Steps of a machine.
A machine computes with words of sixty-four bits, and with pairs of words where a product has to
fit. It refuses a step that is out of range: a result that does not fit, a division by zero, a place
that a sequence does not have, a draw from no numbers. Steps that keep to a result are never
refused.
-/

namespace QuizVariants.Machine

/-- The least number above all pairs of words, two to the hundred and twenty-seventh. -/
def pairBound : Int := 0x80000000000000000000000000000000

/-- Whether an integer fits in a signed pair of words. -/
def FitsPair (n : Int) : Prop :=
  -pairBound ≤ n ∧ n < pairBound

instance (n : Int) : Decidable (FitsPair n) :=
  inferInstanceAs (Decidable (_ ∧ _))

/-- A step that a machine refuses. -/
inductive Refusal where
  /-- A result that does not fit. -/
  | range
  /-- A division by zero. -/
  | division
  /-- A place that a sequence does not have. -/
  | place
  /-- A draw from no numbers. -/
  | draw
  /-- A fraction whose parts are not in lowest terms. -/
  | fraction
  /-- A case that was taken for impossible. -/
  | impossible
  deriving Repr, DecidableEq

/-- Why steps end without a result. -/
inductive Ending where
  | error (fault : EvalError)
  | refused (step : Refusal)
  /-- A sequence has more items than a memory holds. -/
  | exhausted
  deriving Repr, DecidableEq

/-- The result of steps without draws. -/
abbrev Result := Except Ending

@[simp]
theorem ok_bind (value : α) (next : α → Result β) : (.ok value : Result α) >>= next = next value :=
  rfl

/-- Steps that may make random draws. -/
abbrev Run := ExceptT Ending Random

-----------------------------------------------------------------------------------------
-- Single steps
-----------------------------------------------------------------------------------------

/-- A result of arithmetic on words. -/
def word (n : Int) : Result Int :=
  if Fits n then .ok n else .error (.refused .range)

/-- A result of arithmetic on pairs of words. -/
def pair (n : Int) : Result Int :=
  if FitsPair n then .ok n else .error (.refused .range)

/-- A result of arithmetic on words without a sign. -/
def count (n : Int) : Result Nat :=
  if 0 ≤ n ∧ n < 2 * wordBound then .ok n.toNat else .error (.refused .range)

/-- The quotient of two pairs of words, rounded towards zero. -/
def quotient (a b : Int) : Result Int :=
  if b = 0 then .error (.refused .division) else pair (a.tdiv b)

/-- The remainder of two pairs of words, which takes their quotient. -/
def remainder (a b : Int) : Result Int := do
  let _ ← quotient a b
  return a.tmod b

/-- The length of a sequence. No memory holds as many items as there are words that are not
negative. -/
def lengthOf (items : List α) : Result Int :=
  if (items.length : Int) < wordBound then .ok items.length else .error .exhausted

def itemAt (items : List α) (place : Nat) : Result α :=
  match items[place]? with
  | some item => .ok item
  | none => .error (.refused .place)

/-- A case that was taken for impossible. -/
def impossible : Result α :=
  .error (.refused .impossible)

/-- Draws a number below a bound. -/
def below (bound : Nat) : Run Nat :=
  if positive : 0 < bound then ExceptT.lift (Fin.val <$> Random.below bound positive)
  else throw (.refused .draw)

theorem word_of_fits {n : Int} (h : Fits n) : word n = .ok n :=
  if_pos h

theorem pair_of_fits {n : Int} (h : FitsPair n) : pair n = .ok n :=
  if_pos h

theorem quotient_of_fits {a b : Int} (some : b ≠ 0) (h : FitsPair (a.tdiv b))
    : quotient a b = .ok (a.tdiv b) := by
  rw [quotient, if_neg some, pair_of_fits h]

/-- The least pair of words has an opposite that is none. -/
example : quotient (-pairBound) (-1) = .error (.refused .range) := by rfl

theorem itemAt_of_getElem? {items : List α} {place : Nat} {item : α}
    (h : items[place]? = some item)
    : itemAt items place = .ok item := by
  rw [itemAt, h]

-----------------------------------------------------------------------------------------
-- Steps that keep to a result
-----------------------------------------------------------------------------------------

/-- The steps that give a result. -/
def ofExcept (result : Except EvalError α) : Result α :=
  result.mapError .error

@[simp]
theorem ofExcept_ok (value : α) : ofExcept (.ok value) = .ok value :=
  rfl

/-- Results in a row are given by steps in a row. -/
theorem ofExcept_bind (result : Except EvalError α) (next : α → Except EvalError β)
    : ofExcept (result >>= next) = ofExcept result >>= fun value => ofExcept (next value) := by
  cases result <;> rfl

/-- Steps that give a result, unless they meet a sequence that is too long for a memory. -/
def KeepsTo (steps : Result α) (result : Except EvalError α) : Prop :=
  steps = ofExcept result ∨ steps = .error .exhausted

theorem KeepsTo.ofExcept (result : Except EvalError α) : KeepsTo (ofExcept result) result :=
  Or.inl rfl

theorem KeepsTo.ok (value : α) : KeepsTo (.ok value) (.ok value) :=
  Or.inl rfl

theorem KeepsTo.error (fault : EvalError)
    : KeepsTo (.error (.error fault) : Result α) (.error fault) :=
  Or.inl rfl

/-- Steps in a row keep to results in a row, by cases on the first result. -/
theorem KeepsTo.bind {steps : Result α} {result : Except EvalError α} {next : α → Result β}
    {later : α → Except EvalError β} (h : KeepsTo steps result)
    (others : ∀ value, result = .ok value → KeepsTo (next value) (later value))
    : KeepsTo (steps >>= next) (result >>= later) := by
  rcases h with rfl | rfl
  · cases result with
    | error fault => exact .error fault
    | ok value => exact others value rfl
  · exact Or.inr rfl

/-- Steps that keep to a result are not refused. -/
theorem KeepsTo.ne_refused {steps : Result α} {result : Except EvalError α}
    (h : KeepsTo steps result) (step : Refusal)
    : steps ≠ .error (.refused step) := by
  rcases h with rfl | rfl
  · cases result <;> exact nofun
  · exact nofun

-----------------------------------------------------------------------------------------
-- Runs that keep to an evaluation
-----------------------------------------------------------------------------------------

namespace Run

/-- What a run gives on draws, and the draws that it leaves. -/
def outcome (run : Run α) (draws : Draws) : Result α × Draws :=
  StateT.run run.run draws

def ofResult (steps : Result α) : Run α :=
  ExceptT.mk (return steps)

@[simp]
theorem ofResult_ok_bind (value : α) (next : α → Run β)
    : ofResult (.ok value) >>= next = next value :=
  rfl

/-- A run with the outcome of an evaluation on any draws, unless it meets a sequence that is too
long for a memory. -/
def KeepsTo (run : Run α) (action : Evaluation α) : Prop :=
  ∀ draws,
    run.outcome draws
        = (Machine.ofExcept (action.outcome draws).1, (action.outcome draws).2)
      ∨ (run.outcome draws).1 = .error .exhausted

theorem outcome_bind (run : Run α) (next : α → Run β) (draws : Draws)
    : (run >>= next).outcome draws
        = match run.outcome draws with
          | (.ok value, rest) => (next value).outcome rest
          | (.error ending, rest) => (.error ending, rest) := by
  rcases first : run.outcome draws with ⟨result, rest⟩
  have ran : StateT.run run.run draws = (result, rest) := first
  simp only [outcome, ExceptT.run_bind, Random.run_bind, ran]
  cases result <;> rfl

theorem KeepsTo.ofResult {steps : Result α} {result : Except EvalError α}
    (h : Machine.KeepsTo steps result)
    : KeepsTo (ofResult steps) (.ofExcept result) := by
  intro draws
  rcases h with rfl | rfl
  · exact Or.inl rfl
  · exact Or.inr rfl

theorem KeepsTo.of_eq {steps : Result α} {result : Except EvalError α}
    (h : steps = Machine.ofExcept result)
    : KeepsTo (Run.ofResult steps) (.ofExcept result) :=
  .ofResult (Or.inl h)

theorem KeepsTo.pure (value : α) : KeepsTo (pure value) (pure value) :=
  fun _ => Or.inl rfl

theorem KeepsTo.throw (fault : EvalError)
    : KeepsTo (throw (.error fault) : Run α) (throw fault) :=
  fun _ => Or.inl rfl

/-- Draws are made as in an evaluation. -/
theorem KeepsTo.lift (action : Random α) : KeepsTo (ExceptT.lift action) (.ofRandom action) :=
  fun _ => Or.inl rfl

/-- Runs in a row keep to evaluations in a row, by cases on the first outcome. -/
theorem KeepsTo.bind {run : Run α} {action : Evaluation α} {next : α → Run β}
    {later : α → Evaluation β} (h : KeepsTo run action)
    (others : ∀ value, KeepsTo (next value) (later value))
    : KeepsTo (run >>= next) (action >>= later) := by
  intro draws
  rw [outcome_bind, Evaluation.outcome_bind]
  rcases h draws with same | ended
  · rw [same]
    rcases action.outcome draws with ⟨fault | value, rest⟩
    · exact Or.inl rfl
    · exact others value rest
  · right
    rcases ran : run.outcome draws with ⟨result, rest⟩
    rw [ran] at ended
    obtain rfl : result = .error .exhausted := ended
    rfl

/-- A draw from some numbers is made as in an evaluation. -/
theorem KeepsTo.below {bound : Nat} (positive : 0 < bound) {next : Nat → Run α}
    {later : Fin bound → Evaluation α} (others : ∀ place, KeepsTo (next place.val) (later place))
    : KeepsTo (Machine.below bound >>= next)
        (.ofRandom (Random.below bound positive) >>= later) := by
  have drawn : Machine.below bound >>= next
      = ExceptT.lift (Random.below bound positive) >>= fun place => next place.val := by
    rw [Machine.below, dif_pos positive]
    rfl
  rw [drawn]
  exact (KeepsTo.lift _).bind others

end Run

end QuizVariants.Machine
