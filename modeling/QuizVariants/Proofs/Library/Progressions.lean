import Mathlib.Data.Rat.Floor
import QuizVariants.Library.Progression
import QuizVariants.Proofs.Rational.Canonical

/-! Progressions of fractions.
Between two ends in order a progression of fractions has as many members as steps fit between the
ends, and one more. All of its arithmetic is exact as long as it stays in fractions of words, and
anything else is an overflow.
-/

namespace QuizVariants.Library.Progression

open QuizVariants.Rational

/-- The number of steps from `low` that stay below or at `high`. -/
def steps (low high step : ℚ) : ℕ :=
  ⌊(high - low) / step⌋₊

/-- A place is one of the places of a progression exactly if its member is not above the end. -/
theorem le_steps_iff {low high step : ℚ} (positive : 0 < step) (ordered : low ≤ high) (place : ℕ)
    : place ≤ steps low high step ↔ low + step * place ≤ high := by
  have nonnegative : 0 ≤ (high - low) / step := div_nonneg (sub_nonneg.mpr ordered) positive.le
  rw [steps, Nat.le_floor_iff nonnegative, le_div_iff₀' positive, le_sub_iff_add_le']

/-- What is computed to count the steps of a progression are fractions of words. The start is
subtracted as its opposite, which has to be one as well. -/
structure CountsInWords (low high step : ℚ) : Prop where
  opposite : Representable (-low)
  difference : Representable (high - low)
  quotient : Representable ((high - low) / step)

instance (low high step : ℚ) : Decidable (CountsInWords low high step) :=
  decidable_of_iff
    (Representable (-low) ∧ Representable (high - low) ∧ Representable ((high - low) / step))
    ⟨fun all => ⟨all.1, all.2.1, all.2.2⟩, fun all => ⟨all.1, all.2, all.3⟩⟩

-----------------------------------------------------------------------------------------
-- The number of steps
-----------------------------------------------------------------------------------------

variable {low high step : Rational}

theorem order_zero_ne_gt_iff : (step.order 0 != .gt) = true ↔ step.toRat ≤ 0 := by
  have order : step.order 0 = compare step.toRat 0 :=
    toRat_zero ▸ Rational.compare_eq step 0
  rw [bne_iff_ne, order, ne_eq, compare_gt_iff_gt, not_lt]

theorem order_eq_lt_iff : (high.order low == .lt) = true ↔ high.toRat < low.toRat := by
  have order : high.order low = compare high.toRat low.toRat := Rational.compare_eq high low
  rw [beq_iff_eq, order, compare_lt_iff_lt]

theorem rationalSpan_of_step (h : step.toRat ≤ 0)
    : rationalSpan low high step = .error (.invalidArgument owner .stepNotPositive) := by
  rw [rationalSpan, if_pos (order_zero_ne_gt_iff.mpr h)]

theorem rationalSpan_of_empty (positive : 0 < step.toRat) (h : high.toRat < low.toRat)
    : rationalSpan low high step
        = .error (.invalidArgument owner (.emptyRange low.text high.text)) := by
  rw [rationalSpan, if_neg (mt order_zero_ne_gt_iff.mp (not_le.mpr positive)),
    if_pos (order_eq_lt_iff.mpr h)]

/-- Between ends in order the steps are counted exactly, or an overflow ends the count. -/
theorem rationalSpan_of_ordered (positive : 0 < step.toRat) (ordered : low.toRat ≤ high.toRat)
    : rationalSpan low high step
        = if CountsInWords low.toRat high.toRat step.toRat then
            .ok (steps low.toRat high.toRat step.toRat)
          else .error (.arithmetic .overflow) := by
  rw [rationalSpan, if_neg (mt order_zero_ne_gt_iff.mp (not_le.mpr positive)),
    if_neg (mt order_eq_lt_iff.mp (not_lt.mpr ordered)), sub_eq]
  by_cases opposite : Representable (-low.toRat)
  · rw [if_neg ((representable_neg_iff low).mp opposite)]
    by_cases width : Representable (high.toRat - low.toRat)
    · obtain ⟨difference, subtracted, between⟩ := exists_ofRat width
      rw [subtracted]
      change (exactly (difference.div step) >>= _) = _
      rw [div_eq, if_neg positive.ne', between]
      by_cases count : Representable ((high.toRat - low.toRat) / step.toRat)
      · obtain ⟨quotient, divided, ratio⟩ := exists_ofRat count
        rw [divided, if_pos ⟨opposite, width, count⟩, steps, ← ratio, ← Int.floor_toNat,
          floor_toRat]
        rfl
      · rw [ofRat_eq_overflow_iff.mpr count, if_neg fun all => count all.quotient]
        rfl
    · rw [ofRat_eq_overflow_iff.mpr width, if_neg fun all => width all.difference]
      rfl
  · rw [if_pos (not_not.mp (mt (representable_neg_iff low).mpr opposite)),
      if_neg fun all => opposite all.opposite]
    rfl

theorem ofValues_number (low high step : Rational)
    : ofValues (.number low) (.number high) (.number step)
        = (rationalSpan low high step).map fun span =>
            ⟨.number low, .number step, span + 1⟩ := by
  have values : ofValues (.number low) (.number high) (.number step)
      = (do
          let span ← rationalSpan low high step
          return ⟨.number low, .number step, span + 1⟩) := rfl
  rw [values]
  cases rationalSpan low high step <;> rfl

-----------------------------------------------------------------------------------------
-- Members
-----------------------------------------------------------------------------------------

/-- The member at a place that is a word. -/
theorem member_of_number (start step : Rational) (length place : ℕ)
    : Progression.member ⟨.number start, .number step, length⟩ place
        = if fits : Fits place then
            (exactly (do start.add (← step.mul (.integer place fits)))).map .number
          else .error (.arithmetic .overflow) := by
  -- The function is opened before it has a place, since opening it at a place that is a variable
  -- means to count up to the bound of the words.
  have opened : Progression.member = Progression.member := rfl
  conv_rhs at opened => delta Progression.member
  rw [opened]
  beta_reduce
  generalize (place : Int) = n
  rw [Word.ofInt?]
  by_cases fits : Fits n
  · rw [dif_pos fits, dif_pos fits]
  · rw [dif_neg fits, dif_neg fits]

/-- A member is the start and a multiple of the step. The place has to be a word, and both the
multiple and the member fractions of words. -/
theorem member_number (start step : Rational) (length place : ℕ)
    : Progression.member ⟨.number start, .number step, length⟩ place
        = if Fits place ∧ Representable (step.toRat * place) then
            (exactly (ofRat (start.toRat + step.toRat * place))).map .number
          else .error (.arithmetic .overflow) := by
  rw [member_of_number]
  by_cases fits : Fits place
  · have whole : (integer place fits).toRat = place := by simp
    rw [dif_pos fits, mul_eq, whole]
    by_cases multiple : Representable (step.toRat * place)
    · obtain ⟨product, multiplied, value⟩ := exists_ofRat multiple
      rw [if_pos ⟨fits, multiple⟩, multiplied, ← value]
      exact congrArg (fun sum => (exactly sum).map Value.number) (add_eq start product)
    · rw [if_neg fun all => multiple all.2, ofRat_eq_overflow_iff.mpr multiple]
      rfl
  · rw [dif_neg fits, if_neg fun all => fits all.1]

theorem member_eq_ok_iff {start : Rational} {length place : ℕ} {value : Value}
    : Progression.member ⟨.number start, .number step, length⟩ place = .ok value
      ↔ Fits place ∧ Representable (step.toRat * place)
        ∧ ∃ r : Rational, r.toRat = start.toRat + step.toRat * place ∧ value = .number r := by
  rw [member_number]
  split
  · next inWords =>
    rw [map_eq_ok_iff, and_iff_right inWords.1, and_iff_right inWords.2]
    simp only [exactly_eq_ok_iff, ofRat_eq_ok_iff, @eq_comm _ value]
  · next leaves => exact iff_of_false nofun fun all => leaves ⟨all.1, all.2.1⟩

/-- The only fault of a member is an overflow. -/
theorem member_eq_error {start : Rational} {length place : ℕ} {fault : EvalError}
    (h : Progression.member ⟨.number start, .number step, length⟩ place = .error fault)
    : fault = .arithmetic .overflow := by
  rw [member_number] at h
  split at h
  · cases added : ofRat (start.toRat + step.toRat * place) with
    | error error =>
        rw [added, eq_overflow_of_ofRat added] at h
        exact (Except.error.inj h).symm
    | ok sum =>
        rw [added] at h
        exact nomatch h
  · exact (Except.error.inj h).symm

-----------------------------------------------------------------------------------------
-- All members
-----------------------------------------------------------------------------------------

/-- A value is a member of a progression: its start and some steps, not above the end. -/
def IsMember (low high step : ℚ) (value : Value) : Prop :=
  ∃ r : Rational,
    value = .number r ∧ r.toRat ≤ high ∧ ∃ place : ℕ, r.toRat = low + step * place

/-- The multiples of the step up to the end and the members that they lead to are fractions of
words. -/
def ListsInWords (low high step : ℚ) : Prop :=
  ∀ place : ℕ,
    low + step * place ≤ high
    → Representable (step * place) ∧ Representable (low + step * place)

/-- The progression of fractions between two ends in order. -/
def between (low high step : Rational) : Progression :=
  ⟨.number low, .number step, steps low.toRat high.toRat step.toRat + 1⟩

variable (positive : 0 < step.toRat) (ordered : low.toRat ≤ high.toRat)

include positive ordered

/-- What is found at a place of a progression is a member of it. -/
theorem isMember_of_member {place : ℕ} {value : Value}
    (inside : place < (between low high step).length)
    (found : (between low high step).member place = .ok value)
    : IsMember low.toRat high.toRat step.toRat value := by
  obtain ⟨_, _, r, exact', rfl⟩ := member_eq_ok_iff.mp found
  refine ⟨r, rfl, ?_, place, exact'⟩
  rw [exact']
  exact (le_steps_iff positive ordered place).mp (Nat.lt_succ_iff.mp inside)

/-- Each member of a short progression is found at some place, if all of them can be listed. -/
theorem exists_member (short : (between low high step).length < wordBound)
    (lists : ListsInWords low.toRat high.toRat step.toRat) {place : ℕ}
    (inside : place < (between low high step).length)
    : ∃ value, (between low high step).member place = .ok value := by
  have within := (le_steps_iff positive ordered place).mp (Nat.lt_succ_iff.mp inside)
  obtain ⟨multiple, member⟩ := lists place within
  obtain ⟨r, _, value⟩ := exists_ofRat member
  have fits : Fits place := by
    unfold Fits
    omega
  exact ⟨.number r, member_eq_ok_iff.mpr ⟨fits, multiple, r, value, rfl⟩⟩

/-- The members of a short progression are listed if each of them and the way to it are fractions
of words, and otherwise the list is an overflow. -/
theorem members_cases (short : (between low high step).length < wordBound)
    : (ListsInWords low.toRat high.toRat step.toRat
        ∧ ∃ values,
            (between low high step).members = .ok values
            ∧ ∀ value, value ∈ values ↔ IsMember low.toRat high.toRat step.toRat value)
      ∨ ¬ ListsInWords low.toRat high.toRat step.toRat
        ∧ (between low high step).members = .error (.arithmetic .overflow) := by
  have inside (place : ℕ)
      : place ∈ List.range (between low high step).length
        ↔ low.toRat + step.toRat * place ≤ high.toRat := by
    rw [List.mem_range, between, Nat.lt_succ_iff, le_steps_iff positive ordered]
  by_cases lists : ListsInWords low.toRat high.toRat step.toRat
  · refine Or.inl ⟨lists, ?_⟩
    cases listed : (between low high step).members with
    | error fault =>
        obtain ⟨place, member, failed⟩ := exists_of_mapM_eq_error listed
        obtain ⟨value, found⟩ :=
          exists_member positive ordered short lists (List.mem_range.mp member)
        exact nomatch failed.symm.trans found
    | ok values =>
        refine ⟨values, rfl, fun value => ?_⟩
        rw [mem_mapM_iff listed]
        constructor
        · rintro ⟨place, member, found⟩
          exact isMember_of_member positive ordered (List.mem_range.mp member) found
        · rintro ⟨r, rfl, bound, place, exact'⟩
          have member := (inside place).mpr (exact' ▸ bound)
          obtain ⟨value, found⟩ :=
            exists_member positive ordered short lists (List.mem_range.mp member)
          obtain ⟨_, _, other, same, rfl⟩ := member_eq_ok_iff.mp found
          obtain rfl := toRat_injective (same.trans exact'.symm)
          exact ⟨place, member, found⟩
  · refine Or.inr ⟨lists, ?_⟩
    cases listed : (between low high step).members with
    | error fault =>
        obtain ⟨place, _, failed⟩ := exists_of_mapM_eq_error listed
        rw [member_eq_error failed]
    | ok values =>
        refine absurd (fun place bound => ?_) lists
        obtain ⟨value, found⟩ := exists_of_mapM_eq_ok listed ((inside place).mpr bound)
        obtain ⟨_, multiple, r, exact', _⟩ := member_eq_ok_iff.mp found
        exact ⟨multiple, exact' ▸ representable_toRat r⟩

end QuizVariants.Library.Progression
