import QuizVariants.Proofs.Library.Choice
import QuizVariants.Proofs.Value.Integers

/-! Random values of a list.
Values are picked from candidates of which the excluded ones are left out. A single value is any
candidate that remains, and several values are candidates that remain at as many distinct places.
-/

namespace QuizVariants

namespace Library

open QuizVariants.Evaluation

-----------------------------------------------------------------------------------------
-- Requests
-----------------------------------------------------------------------------------------

/-- Candidates to pick from, and the values that are not to be picked. -/
structure Selection where
  candidates : List Value
  excluded : List Value := []

namespace Selection

/-- Arguments give candidates one by one, or as the list that is the only argument. -/
inductive Lists (candidates : List Value) : List Value → Prop where
  | each (several : ∀ items, candidates ≠ [.list items]) : Lists candidates candidates
  | list : Lists candidates [.list candidates]

/-- Keyword arguments exclude nothing, the items of a list, or any other value. -/
inductive Excepts : List Value → List (String × Value) → Prop where
  | nothing : Excepts [] []
  | items (excluded : List Value) : Excepts excluded [("exception", .list excluded)]
  | value {value : Value} (single : ∀ items, value ≠ .list items)
      : Excepts [value] [("exception", value)]

/-- Arguments make a selection when they give its candidates and exclude its exclusions. -/
structure MadeBy (selection : Selection) (values : List Value)
    (keywords : List (String × Value)) : Prop where
  candidates : Lists selection.candidates values
  excluded : Excepts selection.excluded keywords

/-- No excluded value is loosely equal to a value. -/
def Admits (selection : Selection) (value : Value) : Prop :=
  ∀ other ∈ selection.excluded, other.looselyEquals value = false

instance (selection : Selection) (value : Value) : Decidable (selection.Admits value) :=
  inferInstanceAs (Decidable (∀ other ∈ selection.excluded, _))

/-- The candidates that are not excluded, each as often as it is a candidate. -/
def remaining (selection : Selection) : List Value :=
  selection.candidates.filter (fun value => selection.Admits value)

theorem mem_remaining_iff {selection : Selection} {value : Value}
    : value ∈ selection.remaining ↔ value ∈ selection.candidates ∧ selection.Admits value := by
  rw [remaining, List.mem_filter, decide_eq_true_iff]

theorem Lists.spread_eq {items values : List Value} (h : Lists items values)
    : Arguments.spread values = items := by
  cases h with
  | list => rfl
  | each several =>
      rw [Arguments.spread.eq_def]
      split
      · exact absurd rfl (several _)
      · rfl

/-- An exception is taken out of the keyword arguments, and none is left behind. -/
theorem Excepts.exists_exception {items : List Value} {keywords : List (String × Value)}
    (h : Excepts items keywords)
    : ∃ exception : Option Value,
        excludedValues exception = items
        ∧ ∀ values,
            (⟨values, keywords⟩ : Arguments).keyword "exception" = (exception, ⟨values, []⟩) := by
  cases h with
  | nothing => exact ⟨none, rfl, fun _ => rfl⟩
  | items => exact ⟨some (.list items), rfl, fun _ => rfl⟩
  | @value value single =>
      refine ⟨some value, ?_, fun _ => rfl⟩
      cases value with
      | list items => exact absurd rfl (single items)
      | number | float | bool | string | symbolic => rfl

variable {selection : Selection} {values : List Value} {keywords : List (String × Value)}

theorem MadeBy.candidates_eq (made : selection.MadeBy values keywords) {exception : Option Value}
    (h : excludedValues exception = selection.excluded)
    : Library.candidates exception values = selection.remaining := by
  rw [Library.candidates, made.candidates.spread_eq, h, remaining]
  refine List.filter_congr fun value _ => ?_
  rw [Bool.eq_iff_iff, admits_iff, decide_eq_true_iff, Admits]

theorem MadeBy.outcome_pickone (made : selection.MadeBy values keywords) (draws : Draws)
    : (pickone ⟨values, keywords⟩).outcome draws
        = afterChoice selection.remaining (.invalidArgument "pickone" .nothingToPick) draws := by
  obtain ⟨exception, excluded, taken⟩ := made.excluded.exists_exception
  rw [pickone, taken]
  change (Evaluation.ofExcept (.ok values) >>= _).outcome draws = _
  rw [outcome_bind, outcome_ofExcept, ← made.candidates_eq excluded]
  exact outcome_choice _ _ draws

/-- What comes of picking several values, by the integer that is asked for. -/
def afterCount (selection : Selection) (draws : Draws) (n : Int)
    : Except EvalError Value × Draws :=
  if n < 0 then (.error (.invalidArgument "pick" (.negativeCount n)), draws)
  else if selection.remaining.length < n.toNat then
    (.error (.invalidArgument "pick" (.tooFewCandidates n.toNat selection.remaining.length)), draws)
  else
    let sampled := (Random.sample n.toNat selection.remaining).run draws
    (.ok (.list sampled.1), sampled.2)

theorem MadeBy.outcome_pick (made : selection.MadeBy values keywords) (count : Value)
    (draws : Draws)
    : (pick ⟨count :: values, keywords⟩).outcome draws
        = match count.toInteger with
          | .error fault => (.error fault, draws)
          | .ok n => selection.afterCount draws n := by
  obtain ⟨exception, excluded, taken⟩ := made.excluded.exists_exception
  rw [pick, taken]
  change (Evaluation.ofExcept (.ok (count :: values)) >>= _).outcome draws = _
  rw [outcome_bind, outcome_ofExcept]
  change (Evaluation.ofExcept count.toInteger >>= _).outcome draws = _
  rw [outcome_bind, outcome_ofExcept]
  cases count.toInteger with
  | error fault => rfl
  | ok n =>
      dsimp only
      rw [afterCount, ← made.candidates_eq excluded]
      split
      · rfl
      · split <;> rfl

/-- Several values that are picked are candidates from distinct places, none of them excluded. -/
structure Picks (selection : Selection) (count : Nat) (picked : List Value) : Prop where
  length : picked.length = count
  places : ∃ places, Random.TakenAt selection.candidates places picked
  admitted : ∀ value ∈ picked, selection.Admits value

theorem picks_iff {count : Nat} {picked : List Value}
    : selection.Picks count picked
      ↔ picked.length = count ∧ picked.Subperm selection.remaining := by
  rw [remaining, Random.subperm_filter_iff, ← Random.exists_takenAt_iff]
  simp only [decide_eq_true_iff]
  exact ⟨fun h => ⟨h.length, h.places, h.admitted⟩, fun ⟨length, places, admitted⟩ =>
    ⟨length, places, admitted⟩⟩

/-- The values that are picked by an integer that is not negative are, on some draws, all that can
be picked; the only error is that too few candidates remain. -/
theorem afterCount_natural (count : Nat)
    : (∀ value,
        (∃ draws, (selection.afterCount draws count).1 = .ok value)
        ↔ ∃ picked, value = .list picked ∧ selection.Picks count picked)
      ∧ ∀ draws fault,
          (selection.afterCount draws count).1 = .error fault
          ↔ selection.remaining.length < count
            ∧ fault = .invalidArgument "pick"
              (.tooFewCandidates count selection.remaining.length) := by
  have natural : ¬ (count : Int) < 0 := Int.not_lt.mpr (Int.natCast_nonneg count)
  simp only [afterCount, if_neg natural, Int.toNat_natCast, picks_iff]
  by_cases few : selection.remaining.length < count
  · simp only [if_pos few]
    refine ⟨fun value => iff_of_false (fun ⟨_, h⟩ => nomatch h) ?_, fun draws fault => ?_⟩
    · rintro ⟨picked, _, rfl, h⟩
      exact absurd h.length_le (Nat.not_le.mpr few)
    · simp [few, eq_comm]
  · simp only [if_neg few]
    have sampled (picked : List Value) :=
      @Random.exists_sample_iff _ count selection.remaining picked (Nat.not_lt.mp few)
    refine ⟨fun value => ?_, fun draws fault => ?_⟩
    · simp only [← sampled]
      constructor
      · rintro ⟨draws, ⟨⟩⟩
        exact ⟨_, rfl, draws, rfl⟩
      · rintro ⟨_, rfl, draws, rfl⟩
        exact ⟨draws, rfl⟩
    · simp [few]

end Selection

/-- Values are picked from the candidates that remain.
A single value is, on some draws, each candidate that no exclusion is loosely equal to, nothing else
on any draws, and it fails exactly if there is none. For an integer `k` that is not negative, a
whole float being one, what is picked are exactly the lists of `k` such candidates from distinct
places, in each order, and it fails exactly if fewer than `k` of them remain. A negative count and a
count that is no integer of a word are errors. -/
theorem picks_remaining {selection : Selection} {values : List Value}
    {keywords : List (String × Value)} (made : selection.MadeBy values keywords)
    : let single := (pickone ⟨values, keywords⟩).outcome
      let several (count : Value) := (pick ⟨count :: values, keywords⟩).outcome
      ((∀ value,
          (∃ draws, (single draws).1 = .ok value)
          ↔ value ∈ selection.candidates ∧ selection.Admits value)
        ∧ ∀ draws fault,
            (single draws).1 = .error fault
            ↔ (¬ ∃ value ∈ selection.candidates, selection.Admits value)
              ∧ fault = .invalidArgument "pickone" .nothingToPick)
      ∧ (∀ (count : Value) (k : Nat), count.IsWord k
          → (∀ value,
              (∃ draws, (several count draws).1 = .ok value)
              ↔ ∃ picked, value = .list picked ∧ selection.Picks k picked)
            ∧ ∀ draws fault,
                (several count draws).1 = .error fault
                ↔ selection.remaining.length < k
                  ∧ fault = .invalidArgument "pick"
                    (.tooFewCandidates k selection.remaining.length))
      ∧ (∀ (count : Value) (n : Int), count.IsWord n → n < 0
          → ∀ draws,
              several count draws = (.error (.invalidArgument "pick" (.negativeCount n)), draws))
      ∧ ∀ count : Value, (∀ n, ¬ count.IsWord n)
          → ∀ draws,
              several count draws = (.error (.typeMismatch "integer" count.typeName), draws) := by
  intro single several
  have counted {count : Value} {n : Int} (word : count.IsWord n)
      : several count = fun draws => selection.afterCount draws n := by
    funext draws
    rw [show several count draws = _ from made.outcome_pick count draws,
      Value.toInteger_eq_ok_iff.mpr word]
  refine ⟨⟨fun value => ?_, fun draws fault => ?_⟩, fun count k word => ?_,
    fun count n word negative draws => ?_, fun count none draws => ?_⟩
  · have chosen : single = _ := funext made.outcome_pickone
    rw [chosen, exists_afterChoice_eq_ok_iff, Selection.mem_remaining_iff]
  · rw [show single draws = _ from made.outcome_pickone draws, afterChoice_eq_error_iff,
      List.eq_nil_iff_forall_not_mem]
    simp only [Selection.mem_remaining_iff, not_exists]
  · rw [counted word]
    exact Selection.afterCount_natural k
  · rw [counted word]
    exact if_pos negative
  · rw [show several count draws = _ from made.outcome_pick count draws,
      Value.toInteger_of_not_isWord none]

/-- Equal candidates are picked together from a list, by a count that is a float; a candidate that a
float excludes is not picked. -/
theorem picks_remaining_equal
    : let selection : Selection :=
        { candidates := [.integer 1, .integer 2, .integer 2, .integer 3]
          excluded := [.float 3.0] }
      let values : List Value := [.list selection.candidates]
      let keywords : List (String × Value) := [("exception", .float 3.0)]
      selection.MadeBy values keywords
      ∧ (Value.float 2.0).IsWord 2
      ∧ (∃ draws,
          ((pick ⟨.float 2.0 :: values, keywords⟩).outcome draws).1
            = .ok (.list [.integer 2, .integer 2]))
      ∧ ∀ draws, ((pickone ⟨values, keywords⟩).outcome draws).1 ≠ .ok (.integer 3) := by
  intro selection values keywords
  have made : selection.MadeBy values keywords := ⟨.list, .value fun _ => nofun⟩
  have two : (Value.float 2.0).IsWord 2 := by
    have denotes : Decimal.Denotation.ofFloat 2.0 = .finite false (2 ^ 52) (-51) := by
      decide +kernel
    refine ⟨?_, by decide⟩
    rw [Decimal.exactValue?, denotes]
    norm_num
  have picks : selection.Picks 2 [.integer 2, .integer 2] := by
    refine ⟨rfl, ⟨[1, 2], by decide, rfl⟩, ?_⟩
    have admitted : selection.Admits (.integer 2) := by decide +kernel
    simpa using admitted
  obtain ⟨⟨one, _⟩, several, _⟩ := picks_remaining made
  refine ⟨made, two, ((several _ 2 two).1 _).mpr ⟨_, rfl, picks⟩, fun draws returned => ?_⟩
  obtain ⟨_, admitted⟩ := (one _).mp ⟨draws, returned⟩
  exact absurd admitted (by decide +kernel)

end Library

end QuizVariants
