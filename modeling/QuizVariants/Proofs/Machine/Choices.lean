import QuizVariants.Proofs.Machine.Functions

/-! Random choices on a machine.
The members of a progression are counted by a word without a sign, and a place is drawn from
progressions with members alone.
-/

namespace QuizVariants.Machine

open QuizVariants.Library

-----------------------------------------------------------------------------------------
-- Progressions
-----------------------------------------------------------------------------------------

namespace Progression

open QuizVariants.Library.Progression hiding member members

/-- The number of steps from `low` that stay below or at `high`. -/
def rationalSpan (low high step : Rational) : Result Nat := do
  if (← order step 0) != .gt then throw (.error (.invalidArgument owner .stepNotPositive))
  else if (← order high low) == .lt then
    throw (.error (.invalidArgument owner (.emptyRange low.text high.text)))
  else
    let span ← floor (← div (← sub high low) step)
    if 0 ≤ span then return span.toNat else throw (.error (.arithmetic .overflow))

def span (low high step : Value) : Result Nat :=
  match low, high, step with
  | .number low, .number high, .number step => rationalSpan low high step
  | low, high, step => ofExcept (floatSpan (nearest low) (nearest high) (nearest step))

/-- The progression that three numbers describe. -/
def ofValues (low high step : Value) : Result Library.Progression := do
  ofExcept (requireNumber owner low)
  ofExcept (requireNumber owner high)
  ofExcept (requireNumber owner step)
  let span ← span low high step
  if (span : Int) + 1 < 2 * wordBound then return ⟨low, step, span + 1⟩
  else throw (.error (.arithmetic .overflow))

def rationalMember (start step : Rational) (place : Word) : Result Rational := do
  add start (← mul step (← lowest place.toInt 1))

def member (progression : Library.Progression) (place : Int) : Result Value :=
  match Word.ofInt? place with
  | none => throw (.error (.arithmetic .overflow))
  | some place =>
    match progression.start, progression.step with
    | .number start, .number step => do return .number (← rationalMember start step place)
    | start, step => return .float (nearest start + Float.ofInt place.toInt * nearest step)

def members (progression : Library.Progression) : Result (List Value) :=
  (List.range progression.length).mapM (fun (place : Nat) => member progression place)

/-- The steps between two ends in order are counted by a number that is not negative. -/
theorem floor_nonneg {low high step difference span : Rational} (positive : step.order 0 = .gt)
    (ordered : high.order low ≠ .lt) (first : high.sub low = .ok difference)
    (second : difference.div step = .ok span)
    : 0 ≤ span.floor := by
  have above : 0 < step.toRat := by
    have order := (Rational.compare_eq step 0).symm.trans positive
    rw [Rational.toRat_zero] at order
    exact compare_gt_iff_gt.mp order
  have least : low.toRat ≤ high.toRat := by
    refine not_lt.mp (fun less => ordered ?_)
    exact (Rational.compare_eq high low).trans (compare_lt_iff_lt.mpr less)
  rw [← Rational.floor_toRat, (Rational.toRat_div second).2, Rational.toRat_sub first]
  exact Int.floor_nonneg.mpr (div_nonneg (sub_nonneg.mpr least) above.le)

theorem rationalSpan_eq (low high step : Rational)
    : rationalSpan low high step = ofExcept (Library.Progression.rationalSpan low high step) := by
  rw [rationalSpan, Library.Progression.rationalSpan, order_eq, order_eq, ok_bind, ok_bind]
  split
  · rfl
  next positive =>
  split
  · rfl
  next ordered =>
  rw [sub_eq]
  cases first : high.sub low with
  | error fault => rfl
  | ok difference =>
      change _ = ofExcept (exactly (difference.div step) >>= fun span => .ok span.floor.toNat)
      rw [ofExcept_exactly_ok, ok_bind, div_eq]
      cases second : difference.div step with
      | error fault => rfl
      | ok span =>
          have nonnegative : 0 ≤ span.floor :=
            floor_nonneg (by simpa using positive) (by simpa using ordered) first second
          rw [ofExcept_exactly_ok, ok_bind, floor_eq, ok_bind, if_pos nonnegative]
          rfl

theorem rationalSpan_lt {low high step : Rational} {n : Nat}
    (h : Library.Progression.rationalSpan low high step = .ok n)
    : (n : Int) < wordBound := by
  rw [Library.Progression.rationalSpan] at h
  split at h
  · exact nomatch h
  split at h
  · exact nomatch h
  obtain ⟨span, _, same⟩ := bind_eq_ok_iff.mp h
  have fits := span.fits_floor
  have number : span.floor.toNat = n := Except.ok.inj same
  simp only [Fits, wordBound] at fits ⊢
  omega

theorem floatSpan_lt {low high step : Float} {n : Nat} (h : floatSpan low high step = .ok n)
    : (n : Int) < wordBound := by
  rw [floatSpan] at h
  split at h
  · cases h
  split at h
  · cases h
  split at h
  · next span _ =>
    split at h
    · next small =>
      have number : span.toNat = n := Except.ok.inj h
      simp only [wordBound] at small ⊢
      omega
    · cases h
  · cases h

/-- The number of members is a word without a sign, as the number of steps is a word. -/
theorem count_members {steps : Result Nat} {result : Except EvalError Nat} (low step : Value)
    (h : steps = ofExcept result) (small : ∀ n, result = .ok n → (n : Int) < wordBound)
    : (do
        let span ← steps
        if (span : Int) + 1 < 2 * wordBound then return ⟨low, step, span + 1⟩
        else throw (.error (.arithmetic .overflow)) : Result Library.Progression)
      = ofExcept (do
          let span ← result
          return ⟨low, step, span + 1⟩) := by
  rw [h]
  cases result with
  | error fault => rfl
  | ok span =>
      have fits := small span rfl
      have members : (span : Int) + 1 < 2 * wordBound := by
        simp only [wordBound] at fits ⊢
        omega
      rw [ofExcept_ok, ok_bind, if_pos members]
      rfl

theorem ofValues_eq (low high step : Value)
    : ofValues low high step = ofExcept (Library.Progression.ofValues low high step) := by
  simp only [ofValues, Library.Progression.ofValues, ofExcept_bind]
  congr 1
  funext _
  congr 1
  funext _
  congr 1
  funext _
  fun_cases span low high step with
  | case1 => exact count_members _ _ (rationalSpan_eq _ _ _) (fun _ => rationalSpan_lt)
  | case2 =>
      split
      · simp_all
      · exact count_members _ _ rfl (fun _ => floatSpan_lt)

theorem rationalMember_eq (start step : Rational) (place : Word)
    : rationalMember start step place
        = ofExcept (exactly (do
            start.add (← step.mul (.integer place.toInt place.fits)))) := by
  rw [rationalMember, lowest_one place.fits, ok_bind, mul_eq]
  cases step.mul (.integer place.toInt place.fits) with
  | error fault => rfl
  | ok product => exact add_eq start product

theorem member_eq (progression : Library.Progression) (place : Nat)
    : member progression place = ofExcept (progression.member place) := by
  -- The function is opened before it has a place, since opening it at a place that is a variable
  -- means to count up to the bound of the words.
  have opened : Library.Progression.member = Library.Progression.member := rfl
  conv_rhs at opened => delta Library.Progression.member
  rw [opened]
  beta_reduce
  generalize (place : Int) = n
  rw [member]
  cases Word.ofInt? n with
  | none => rfl
  | some word =>
      obtain ⟨start, step, length⟩ := progression
      cases start with
      | number start =>
          cases step with
          | number step => exact map_number_eq (rationalMember_eq start step word)
          | _ => rfl
      | _ => rfl

theorem members_eq (progression : Library.Progression)
    : members progression = ofExcept progression.members := by
  rw [members, Library.Progression.members]
  induction List.range progression.length with
  | nil => rfl
  | cons place places ih =>
      rw [List.mapM_cons, List.mapM_cons, member_eq, ih, ofExcept_bind]
      congr 1
      funext value
      rw [ofExcept_bind]
      rfl

end Progression

-----------------------------------------------------------------------------------------
-- Draws
-----------------------------------------------------------------------------------------

namespace Functions

/-- Draws members of a progression until one is admissible, `draws` times at most. -/
def drawMember (progression : Library.Progression) (excluded : List Value)
    : (draws : Nat) → Run Value
  | 0 => throw (.error (.exhaustedSampling Library.Progression.owner maxDraws))
  | draws + 1 => do
    let place ← below progression.length
    let value ← Run.ofResult (Progression.member progression place)
    if admits excluded value then return value
    else drawMember progression excluded draws

def chooseMember (progression : Library.Progression) (excluded : List Value) (low high : Value)
    : Run Value := do
  if progression.length ≤ listedLength then
    let members ← Run.ofResult (Progression.members progression)
    match ← ExceptT.lift (Random.choose? (members.filter (admits excluded))) with
    | some value => return value
    | none =>
      throw (.error (.invalidArgument Library.Progression.owner
        (.allExcluded low.text high.text)))
  else drawMember progression excluded maxDraws

/-- A random member of a progression. -/
def randnum (args : Arguments) : Run Value := do
  let (stepKeyword, args) ← Run.ofResult (keyword args "step")
  let (excludeKeyword, args) ← Run.ofResult (keyword args "exclude")
  Run.ofResult (rejectKeywords args Library.Progression.owner)
  Run.ofResult (arity args Library.Progression.owner "2 to 4" 2 4)
  match args.positional with
  | low :: high :: more =>
    let (step, exclude) := stepAndExclusions more
    let step := (step <|> stepKeyword).getD (.number 1)
    let progression ← Run.ofResult (Progression.ofValues low high step)
    chooseMember progression (excludedValues (exclude <|> excludeKeyword)) low high
  | _ => throw (.error (.arity Library.Progression.owner "2 to 4" 0))

def pickone (args : Arguments) : Run Value := do
  let (exception, args) ← Run.ofResult (keyword args "exception")
  Run.ofResult (rejectKeywords args "pickone")
  match ← ExceptT.lift (Random.choose? (candidates exception args.positional)) with
  | some value => return value
  | none => throw (.error (.invalidArgument "pickone" .nothingToPick))

/-- Random values from distinct places. -/
def pick (args : Arguments) : Run Value := do
  let (exception, args) ← Run.ofResult (keyword args "exception")
  Run.ofResult (rejectKeywords args "pick")
  if args.positional.isEmpty then throw (.error (.arity "pick" "at least 1" 0))
  else
    let first ← Run.ofResult (itemAt args.positional 0)
    let count ← Run.ofResult (ofExcept first.toInteger)
    if count < 0 then throw (.error (.invalidArgument "pick" (.negativeCount count)))
    else
      let candidates := candidates exception (args.positional.eraseIdx 0)
      if candidates.length < count.toNat then
        throw (.error (.invalidArgument "pick" (.tooFewCandidates count.toNat candidates.length)))
      else return .list (← ExceptT.lift (Random.sample count.toNat candidates))

theorem keepsTo_positional {args : Arguments} {function : String} {next : Unit → Run α}
    {later : List Value → Evaluation α} (h : Run.KeepsTo (next ()) (later args.positional))
    : Run.KeepsTo (Run.ofResult (rejectKeywords args function) >>= next)
        (.ofExcept (args.withoutKeywords function) >>= later) := by
  obtain ⟨positional, _ | ⟨⟨key, value⟩, keywords⟩⟩ := args
  · exact h
  · exact .throw _

/-- Each draw is one from a progression that has members, by induction on the number of draws. -/
theorem keepsTo_drawMember (progression : Library.Progression) (positive : 0 < progression.length)
    (excluded : List Value) (draws : Nat)
    : Run.KeepsTo (drawMember progression excluded draws)
        (Library.drawMember progression positive excluded draws) := by
  induction draws with
  | zero => exact .throw _
  | succ draws ih =>
      rw [drawMember, Library.drawMember]
      refine Run.KeepsTo.below positive (fun place => ?_)
      refine (Run.KeepsTo.of_eq (Progression.member_eq progression place)).bind (fun value => ?_)
      split
      · exact .pure value
      · exact ih

theorem keepsTo_chooseMember (progression : Library.Progression)
    (positive : 0 < progression.length) (excluded : List Value) (low high : Value)
    : Run.KeepsTo (chooseMember progression excluded low high)
        (Library.chooseMember progression excluded low high) := by
  rw [chooseMember, Library.chooseMember]
  split
  · refine (Run.KeepsTo.of_eq (Progression.members_eq progression)).bind (fun members => ?_)
    refine (Run.KeepsTo.lift _).bind (fun value? => ?_)
    cases value? with
    | none => exact .throw _
    | some value => exact .pure value
  · exact keepsTo_drawMember progression positive excluded maxDraws

/-- A progression that is described has members, the first of which is its start. -/
theorem length_pos_of_ofValues {low high step : Value} {progression : Library.Progression}
    (h : Library.Progression.ofValues low high step = .ok progression)
    : 0 < progression.length := by
  simp only [Library.Progression.ofValues, bind_eq_ok_iff] at h
  obtain ⟨_, _, _, _, _, _, h⟩ := h
  split at h
  · obtain ⟨span, _, same⟩ := bind_eq_ok_iff.mp h
    exact Except.ok.inj same ▸ Nat.succ_pos span
  · obtain ⟨span, _, same⟩ := bind_eq_ok_iff.mp h
    exact Except.ok.inj same ▸ Nat.succ_pos span

theorem keepsTo_ofValues (low high step : Value) (excluded : List Value)
    : Run.KeepsTo (do
          let progression ← Run.ofResult (Progression.ofValues low high step)
          chooseMember progression excluded low high)
        (do
          let progression ← .ofExcept (Library.Progression.ofValues low high step)
          Library.chooseMember progression excluded low high) := by
  rw [Progression.ofValues_eq]
  cases found : Library.Progression.ofValues low high step with
  | error fault => exact .throw _
  | ok progression =>
      exact keepsTo_chooseMember progression (length_pos_of_ofValues found) excluded low high

theorem keepsTo_randnum (args : Arguments)
    : Run.KeepsTo (randnum args) (Library.randnum args) := by
  rw [randnum, keyword_eq, Run.ofResult_ok_bind, Library.randnum]
  generalize args.keyword "step" = found
  obtain ⟨stepKeyword, args⟩ := found
  dsimp only
  rw [keyword_eq, Run.ofResult_ok_bind]
  generalize args.keyword "exclude" = found
  obtain ⟨excludeKeyword, positional, keywords⟩ := found
  refine keepsTo_positional ?_
  dsimp only
  rcases positional with _ | ⟨low, _ | ⟨high, more⟩⟩
  · exact .throw _
  · exact .throw _
  by_cases many : 2 < more.length
  · rw [arity_of_outside (by simp; omega)]
    dsimp only
    rw [if_pos many]
    exact .throw _
  · have accepted
        : arity ⟨low :: high :: more, keywords⟩ Library.Progression.owner "2 to 4" 2 4 = .ok () :=
      if_neg (by simp; omega)
    rw [accepted, Run.ofResult_ok_bind]
    dsimp only
    rw [if_neg many]
    exact keepsTo_ofValues low high _ _

theorem keepsTo_pickone (args : Arguments)
    : Run.KeepsTo (pickone args) (Library.pickone args) := by
  rw [pickone, keyword_eq, Run.ofResult_ok_bind, Library.pickone]
  generalize args.keyword "exception" = found
  obtain ⟨exception, args⟩ := found
  refine keepsTo_positional ((Run.KeepsTo.lift _).bind (fun value? => ?_))
  cases value? with
  | none => exact .throw _
  | some value => exact .pure value

theorem keepsTo_pick (args : Arguments)
    : Run.KeepsTo (pick args) (Library.pick args) := by
  rw [pick, keyword_eq, Run.ofResult_ok_bind, Library.pick]
  generalize args.keyword "exception" = found
  obtain ⟨exception, args⟩ := found
  refine keepsTo_positional ?_
  dsimp only
  cases args.positional with
  | nil => exact .throw _
  | cons first values =>
      refine @Run.KeepsTo.bind _ _ (Run.ofResult (ofExcept first.toInteger))
        (.ofExcept first.toInteger) _ _ (Run.KeepsTo.of_eq rfl) (fun count => ?_)
      have others : (first :: values).eraseIdx 0 = values := rfl
      rw [others]
      split
      · exact .throw _
      · split
        · exact .throw _
        · exact (Run.KeepsTo.lift _).bind (fun _ => .pure _)

end Functions

end QuizVariants.Machine
