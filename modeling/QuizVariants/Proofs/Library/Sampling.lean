import Mathlib.Data.List.Permutation
import QuizVariants.Proofs.Library.Choice
import QuizVariants.Proofs.Library.Progressions

/-! Random members of a progression.
A random number between two fractions is a member of the progression from one to the other that no
exclusion equals. A short progression is listed before one of its members is drawn, so that each of
them can be drawn and none is missed; from a longer one members are drawn by trial.
-/

namespace QuizVariants

open QuizVariants.Evaluation
open QuizVariants.Rational

namespace Library

open QuizVariants.Library.Progression

-----------------------------------------------------------------------------------------
-- Requests
-----------------------------------------------------------------------------------------

/-- How an argument is given that may be left out. -/
inductive Given (α : Type) where
  | omitted
  | placed (value : α)
  | named (value : α)

namespace Given

def value? : Given α → Option α
  | .omitted => none
  | .placed value => some value
  | .named value => some value

/-- The values that stand among the positional arguments. -/
def inPlace : Given α → List α
  | .placed value => [value]
  | _ => []

/-- The values that stand among the keyword arguments. -/
def byName : Given α → List α
  | .named value => [value]
  | _ => []

end Given

/-- A request for a random number between two fractions. -/
structure Request where
  low : Rational
  high : Rational
  step : Given Rational := .omitted
  excluded : Given (List Value) := .omitted

namespace Request

/-- The step of a request, which is one where it is left out. -/
def stepOrOne (request : Request) : Rational :=
  request.step.value?.getD 1

def exclusions (request : Request) : List Value :=
  request.excluded.value?.getD []

/-- Arguments make a request when the ends come first, the step and the exclusions that are given
by position come next, and the others are the keyword arguments, in any order. -/
structure MadeBy (request : Request) (args : Arguments) : Prop where
  positional : args.positional
    = .number request.low :: .number request.high
      :: (request.step.inPlace.map .number ++ request.excluded.inPlace.map .list)
  keywords : args.keywords.Perm
    (request.step.byName.map (fun step => ("step", .number step))
      ++ request.excluded.byName.map (fun items => ("exclude", .list items)))

/-- Whatever way the step and the exclusions are given, the call draws from the progression of the
request; by cases on both. -/
theorem MadeBy.randnum_eq {request : Request} {args : Arguments} (made : request.MadeBy args)
    : randnum args
        = (do
            let progression ← Evaluation.ofExcept
              (ofValues (.number request.low) (.number request.high) (.number request.stepOrOne))
            chooseMember progression request.exclusions (.number request.low)
              (.number request.high)) := by
  obtain ⟨positional, keywords⟩ := args
  obtain ⟨low, high, step, excluded⟩ := request
  obtain ⟨rfl, ordered⟩ := made
  cases step with
  | omitted =>
      cases excluded with
      | omitted | placed =>
          obtain rfl := List.perm_nil.mp ordered
          rfl
      | named items =>
          obtain rfl := List.perm_singleton.mp ordered
          rfl
  | placed step =>
      cases excluded with
      | omitted | placed =>
          obtain rfl := List.perm_nil.mp ordered
          rfl
      | named items =>
          obtain rfl := List.perm_singleton.mp ordered
          rfl
  | named step =>
      cases excluded with
      | omitted | placed =>
          obtain rfl := List.perm_singleton.mp ordered
          rfl
      | named items =>
          rcases List.perm_pair.mp ordered with rfl | rfl <;> rfl

/-- The progression that a request draws from when its ends are in order. -/
def progression (request : Request) : Progression :=
  between request.low request.high request.stepOrOne

/-- The values that a request can have: members of its progression that no exclusion equals. -/
def Admits (request : Request) (value : Value) : Prop :=
  IsMember request.low.toRat request.high.toRat request.stepOrOne.toRat value
  ∧ ∀ other ∈ request.exclusions, other.looselyEquals value = false

/-- The step is positive and the ends are in order. -/
structure InOrder (request : Request) : Prop where
  positive : 0 < request.stepOrOne.toRat
  ends : request.low.toRat ≤ request.high.toRat

/-- The steps of the progression are counted in fractions of words. -/
def CountsInWords (request : Request) : Prop :=
  Progression.CountsInWords request.low.toRat request.high.toRat request.stepOrOne.toRat

/-- The members of the progression are listed in fractions of words. -/
def ListsInWords (request : Request) : Prop :=
  Progression.ListsInWords request.low.toRat request.high.toRat request.stepOrOne.toRat

instance (request : Request) : Decidable request.CountsInWords :=
  inferInstanceAs (Decidable (Progression.CountsInWords _ _ _))

/-- What a request gives once its progression is known. -/
def choose (request : Request) : Evaluation Value :=
  chooseMember request.progression request.exclusions (.number request.low)
    (.number request.high)

variable {request : Request} {args : Arguments}

theorem MadeBy.outcome_of_span (made : request.MadeBy args) {fault : EvalError}
    (h : rationalSpan request.low request.high request.stepOrOne = .error fault) (draws : Draws)
    : (randnum args).outcome draws = (.error fault, draws) := by
  rw [made.randnum_eq, ofValues_number, h]
  rfl

/-- A request whose step is not positive or whose ends are out of order is refused. -/
theorem MadeBy.outcome_of_not_inOrder (made : request.MadeBy args) (h : ¬ request.InOrder)
    (draws : Draws)
    : ∃ reason,
        (randnum args).outcome draws = (.error (.invalidArgument owner reason), draws) := by
  by_cases positive : 0 < request.stepOrOne.toRat
  · have empty : request.high.toRat < request.low.toRat :=
      not_le.mp fun ends => h ⟨positive, ends⟩
    exact ⟨_, made.outcome_of_span (rationalSpan_of_empty positive empty) draws⟩
  · exact ⟨_, made.outcome_of_span (rationalSpan_of_step (not_lt.mp positive)) draws⟩

/-- A request in order draws from its progression, unless counting the steps is an overflow. -/
theorem MadeBy.outcome_of_inOrder (made : request.MadeBy args) (h : request.InOrder)
    (draws : Draws)
    : (randnum args).outcome draws
        = if request.CountsInWords then request.choose.outcome draws
          else (.error (.arithmetic .overflow), draws) := by
  have counted := @rationalSpan_of_ordered request.low request.high _ h.positive h.ends
  split
  · next counts =>
    rw [made.randnum_eq, ofValues_number, counted.trans (if_pos counts)]
    rfl
  · next leaves => exact made.outcome_of_span (counted.trans (if_neg leaves)) draws

-----------------------------------------------------------------------------------------
-- Short progressions
-----------------------------------------------------------------------------------------

theorem outcome_choose_of_listed (short : request.progression.length ≤ listedLength)
    (draws : Draws)
    : request.choose.outcome draws
        = match request.progression.members with
          | .error fault => (.error fault, draws)
          | .ok members =>
            afterChoice (members.filter (admits request.exclusions))
              (.invalidArgument owner (.allExcluded request.low.text request.high.text)) draws := by
  rw [choose, chooseMember, if_pos short, outcome_bind, outcome_ofExcept]
  cases request.progression.members with
  | error fault => rfl
  | ok members => exact outcome_choice _ _ draws

/-- The members of a short progression are listed, or the list is an overflow. -/
theorem InOrder.members_cases (h : request.InOrder)
    (short : request.progression.length ≤ listedLength)
    : (request.ListsInWords
        ∧ ∃ members,
            request.progression.members = .ok members
            ∧ ∀ value,
                value ∈ members.filter (admits request.exclusions) ↔ request.Admits value)
      ∨ ¬ request.ListsInWords
        ∧ request.progression.members = .error (.arithmetic .overflow) := by
  have few : request.progression.length < wordBound := by
    unfold listedLength at short
    unfold wordBound
    omega
  refine (Progression.members_cases h.positive h.ends few).imp_left ?_
  rintro ⟨lists, members, listed, mem⟩
  refine ⟨lists, members, listed, fun value => ?_⟩
  rw [List.mem_filter, mem, admits_iff, Admits]

/-- A short progression whose members are fractions of words is drawn from without a miss: every
admissible member is drawn on some draws, nothing else is, and the only error is that there is no
such member. -/
theorem InOrder.outcome_choose_of_listsInWords (h : request.InOrder)
    (short : request.progression.length ≤ listedLength) (lists : request.ListsInWords)
    : (∀ value,
          (∃ draws, (request.choose.outcome draws).1 = .ok value) ↔ request.Admits value)
      ∧ ∀ draws fault,
          (request.choose.outcome draws).1 = .error fault
          ↔ (¬ ∃ value, request.Admits value)
            ∧ fault = .invalidArgument owner
              (.allExcluded request.low.text request.high.text) := by
  obtain ⟨_, members, listed, admitted⟩ | ⟨leaves, _⟩ := h.members_cases short
  case inr => exact absurd lists leaves
  simp only [outcome_choose_of_listed short, listed]
  refine ⟨fun value => exists_afterChoice_eq_ok_iff.trans (admitted value), fun draws fault => ?_⟩
  rw [afterChoice_eq_error_iff, List.eq_nil_iff_forall_not_mem, not_exists]
  simp only [admitted]

theorem InOrder.outcome_choose_of_not_listsInWords (h : request.InOrder)
    (short : request.progression.length ≤ listedLength) (leaves : ¬ request.ListsInWords)
    (draws : Draws)
    : request.choose.outcome draws = (.error (.arithmetic .overflow), draws) := by
  obtain ⟨lists, _⟩ | ⟨_, overflow⟩ := h.members_cases short
  · exact absurd lists leaves
  · rw [outcome_choose_of_listed short, overflow]

-----------------------------------------------------------------------------------------
-- Long progressions
-----------------------------------------------------------------------------------------

/-- A run that samples by trial ends after some draws at most: in a value that the request admits,
exhausted, or in an overflow. -/
def EndsWithin (request : Request) (count : ℕ) (draws : Draws)
    (ended : Except EvalError Value × Draws)
    : Prop :=
  (∃ used ≤ count, ended.2 = { draws with used := draws.used + used })
  ∧ ((∃ value, ended.1 = .ok value ∧ request.Admits value)
    ∨ ended.1 = .error (.exhaustedSampling owner maxDraws)
    ∨ ended.1 = .error (.arithmetic .overflow))

/-- What comes of a trial with what was found in it: a fault, an admissible value, or else what
comes of the next one. -/
def afterTrial (excluded : List Value) (again : Evaluation Value) (next : Draws)
    : Except EvalError Value → Except EvalError Value × Draws
  | .error fault => (.error fault, next)
  | .ok value => if admits excluded value then (.ok value, next) else again.outcome next

/-- One number is drawn in a trial, whatever it leads to. What is found at a place is left open,
since opening the members of a progression at a place that is a variable means to count up to the
bound of the words. -/
theorem outcome_trial (find : ℕ → Except EvalError Value) {bound : ℕ} (some : 0 < bound)
    (excluded : List Value) (again : Evaluation Value) (draws : Draws)
    : (do
          let place ← Evaluation.ofRandom (Random.below bound some)
          let value ← Evaluation.ofExcept (find place)
          if admits excluded value then return value
          else again : Evaluation Value).outcome draws
        = afterTrial excluded again { draws with used := draws.used + 1 }
          (find (draws.source draws.used % bound)) := by
  rw [outcome_bind, outcome_ofRandom]
  change (Evaluation.ofExcept (find (draws.source draws.used % bound)) >>= _
    : Evaluation Value).outcome _ = _
  rw [outcome_bind, outcome_ofExcept]
  cases find (draws.source draws.used % bound) with
  | error fault => rfl
  | ok value =>
      rw [afterTrial]
      dsimp only
      split <;> rfl

theorem outcome_drawMember_succ (progression : Progression) (some : 0 < progression.length)
    (excluded : List Value) (count : ℕ) (draws : Draws)
    : (drawMember progression some excluded (count + 1)).outcome draws
        = afterTrial excluded (drawMember progression some excluded count)
          { draws with used := draws.used + 1 }
          (progression.member (draws.source draws.used % progression.length)) := by
  rw [drawMember]
  exact outcome_trial progression.member some excluded _ draws

/-- The trials end in what they draw from, by induction on their number. -/
theorem endsWithin_drawMember {progression : Progression} (some : 0 < progression.length)
    (members : ∀ place < progression.length, ∀ value,
      progression.member place = .ok value
      → IsMember request.low.toRat request.high.toRat request.stepOrOne.toRat value)
    (faults : ∀ place fault,
      progression.member place = .error fault → fault = .arithmetic .overflow)
    (count : ℕ) (draws : Draws)
    : request.EndsWithin count draws
        ((drawMember progression some request.exclusions count).outcome draws) := by
  induction count generalizing draws with
  | zero => exact ⟨⟨0, Nat.le_refl 0, rfl⟩, .inr (.inl rfl)⟩
  | succ count ih =>
      rw [outcome_drawMember_succ]
      have inside := Nat.mod_lt (draws.source draws.used) some
      cases found : progression.member (draws.source draws.used % progression.length) with
      | error fault =>
          obtain rfl := faults _ fault found
          exact ⟨⟨1, Nat.succ_pos count, rfl⟩, .inr (.inr rfl)⟩
      | ok value =>
          rw [afterTrial]
          split
          · next admissible =>
            have member := members _ inside value found
            exact ⟨⟨1, Nat.succ_pos count, rfl⟩,
              .inl ⟨value, rfl, member, admits_iff.mp admissible⟩⟩
          · obtain ⟨⟨used, few, rest⟩, ends⟩ := ih { draws with used := draws.used + 1 }
            refine ⟨⟨used + 1, Nat.succ_le_succ few, ?_⟩, ends⟩
            rw [rest, Nat.add_right_comm, Nat.add_assoc]

theorem InOrder.endsWithin_choose (h : request.InOrder)
    (long : listedLength < request.progression.length) (draws : Draws)
    : request.EndsWithin maxDraws draws (request.choose.outcome draws) := by
  have some : 0 < request.progression.length := Nat.succ_pos _
  rw [choose, chooseMember, if_neg (Nat.not_le.mpr long), dif_pos some]
  exact endsWithin_drawMember some (fun _ inside _ => isMember_of_member h.positive h.ends inside)
    (fun _ _ => member_eq_error) maxDraws draws

-----------------------------------------------------------------------------------------
-- Requests of all kinds
-----------------------------------------------------------------------------------------

/-- Whatever a request in order draws is a value that it admits. -/
theorem InOrder.admits_of_choose (h : request.InOrder) {draws : Draws} {value : Value}
    (returned : (request.choose.outcome draws).1 = .ok value)
    : request.Admits value := by
  rcases Nat.lt_or_ge listedLength request.progression.length with long | short
  · obtain ⟨_, ⟨other, ended, admissible⟩ | ended | ended⟩ := h.endsWithin_choose long draws
    · obtain rfl := Except.ok.inj (returned.symm.trans ended)
      exact admissible
    · exact nomatch returned.symm.trans ended
    · exact nomatch returned.symm.trans ended
  · by_cases lists : request.ListsInWords
    · exact ((h.outcome_choose_of_listsInWords short lists).1 value).mp ⟨draws, returned⟩
    · rw [h.outcome_choose_of_not_listsInWords short lists] at returned
      exact nomatch returned

end Request

/-- Random numbers between fractions are members of their progression.
However the step and the exclusions are given, a call with a step that is not positive or with ends
out of order is refused, and any value that a call returns is the start and some steps, is not above
the end, and equals no exclusion. If there are at most 4096 members and all arithmetic on them stays
in fractions of words, the values of all draws are exactly the admissible members, and a call fails
exactly if there is none; if the arithmetic leaves the words, every call is an overflow. From more
members at most 1000 draws are made, which end in an admissible member, exhausted, or in an
overflow. -/
theorem randnum_samples {request : Request} {args : Arguments} (made : request.MadeBy args)
    : let low := request.low.toRat
      let high := request.high.toRat
      let step := request.stepOrOne.toRat
      let members := ⌊(high - low) / step⌋₊ + 1
      let run := (randnum args).outcome
      (step ≤ 0 ∨ high < low
        → ∀ draws, ∃ reason, run draws = (.error (.invalidArgument "randnum" reason), draws))
      ∧ (∀ draws value, (run draws).1 = .ok value → request.Admits value)
      ∧ (0 < step → low ≤ high → members ≤ 4096 →
          (request.CountsInWords ∧ request.ListsInWords
            → (∀ value, (∃ draws, (run draws).1 = .ok value) ↔ request.Admits value)
              ∧ ∀ draws fault,
                  (run draws).1 = .error fault
                  ↔ (¬ ∃ value, request.Admits value)
                    ∧ fault = .invalidArgument "randnum"
                      (.allExcluded request.low.text request.high.text))
          ∧ (¬ (request.CountsInWords ∧ request.ListsInWords)
            → ∀ draws, run draws = (.error (.arithmetic .overflow), draws)))
      ∧ (0 < step → low ≤ high → 4096 < members
        → ∀ draws,
            (∃ used ≤ 1000, (run draws).2 = { draws with used := draws.used + used })
            ∧ ((∃ value, (run draws).1 = .ok value ∧ request.Admits value)
              ∨ (run draws).1 = .error (.exhaustedSampling "randnum" 1000)
              ∨ (run draws).1 = .error (.arithmetic .overflow))) := by
  intro low high step members run
  have chosen (h : request.InOrder) := made.outcome_of_inOrder h
  refine ⟨fun refused => made.outcome_of_not_inOrder fun h => ?_, fun draws value returned => ?_,
    fun positive ends few => ?_, fun positive ends many draws => ?_⟩
  · exact refused.elim (not_le.mpr h.positive) (not_lt.mpr h.ends)
  · by_cases h : request.InOrder
    · rw [show run draws = _ from chosen h draws] at returned
      split at returned
      · exact h.admits_of_choose returned
      · exact nomatch returned
    · obtain ⟨reason, failed⟩ := made.outcome_of_not_inOrder h draws
      rw [show run draws = _ from failed] at returned
      exact nomatch returned
  · have h : request.InOrder := ⟨positive, ends⟩
    have short : request.progression.length ≤ listedLength := few
    refine ⟨fun stays => ?_, fun leaves draws => (chosen h draws).trans ?_⟩
    · have same : run = request.choose.outcome :=
        funext fun draws => (chosen h draws).trans (if_pos stays.1)
      rw [same]
      exact h.outcome_choose_of_listsInWords short stays.2
    · split
      · next counts =>
        exact h.outcome_choose_of_not_listsInWords short (fun lists => leaves ⟨counts, lists⟩) draws
      · rfl
  · have h : request.InOrder := ⟨positive, ends⟩
    have long : listedLength < request.progression.length := many
    rw [show run draws = _ from chosen h draws]
    split
    · exact h.endsWithin_choose long draws
    · exact ⟨⟨0, Nat.zero_le _, rfl⟩, .inr (.inr rfl)⟩

/-- From one to ten in steps of three, the counting and the listing stay in words. -/
theorem staysInWords_of_numbers {request : Request} (low : request.low.toRat = 1)
    (high : request.high.toRat = 10) (step : request.stepOrOne.toRat = 3)
    : request.CountsInWords ∧ request.ListsInWords := by
  rw [Request.CountsInWords, Request.ListsInWords, low, high, step]
  have width : (10 - 1 : ℚ) = (9 : ℤ) := by norm_num
  have count : ((10 - 1) / 3 : ℚ) = (3 : ℤ) := by norm_num
  refine ⟨⟨by decide, ?_, ?_⟩, fun place bound => ?_⟩
  · exact width ▸ representable_intCast_iff.mpr (by decide)
  · exact count ▸ representable_intCast_iff.mpr (by decide)
  · have few : 1 + 3 * (place : ℤ) ≤ 10 := by exact_mod_cast bound
    have multiple : Representable ((3 * place : ℤ) : ℚ) :=
      representable_intCast_iff.mpr (by unfold Fits wordBound; omega)
    have member : Representable ((1 + 3 * place : ℤ) : ℚ) :=
      representable_intCast_iff.mpr (by unfold Fits wordBound; omega)
    push_cast at multiple member
    exact ⟨multiple, member⟩

/-- The end is drawn on some draws, and the excluded number on none. -/
theorem randnum_samples_withoutFour
    : let request : Request :=
        { low := 1
          high := .integer 10
          step := .placed (.integer 3)
          excluded := .named [.number (.integer 4)] }
      let args : Arguments :=
        { positional := [.number 1, .number (.integer 10), .number (.integer 3)]
          keywords := [("exclude", .list [.number (.integer 4)])] }
      request.MadeBy args
      ∧ (∃ draws, ((randnum args).outcome draws).1 = .ok (.number (.integer 10)))
      ∧ ∀ draws, ((randnum args).outcome draws).1 ≠ .ok (.number (.integer 4)) := by
  intro request args
  have made : request.MadeBy args := ⟨rfl, .refl _⟩
  have low : request.low.toRat = 1 := toRat_one
  have high : request.high.toRat = 10 := (toRat_integer 10 (by decide)).trans (by norm_num)
  have step : request.stepOrOne.toRat = 3 := (toRat_integer 3 (by decide)).trans (by norm_num)
  have words := staysInWords_of_numbers low high step
  obtain ⟨_, sound, short, _⟩ := randnum_samples made
  rw [low, high, step] at short
  have four : ⌊((10 - 1) / 3 : ℚ)⌋₊ + 1 ≤ 4096 := by norm_num
  have drawn := ((short (by norm_num) (by norm_num) four).1 words).1
  refine ⟨made, (drawn _).mpr ⟨⟨.integer 10, rfl, le_refl _, 3, ?_⟩, by decide⟩, ?_⟩
  · rw [low, step, toRat_integer]
    norm_num
  · intro draws returned
    have unequal := (sound draws _ returned).2 _ (List.mem_singleton.mpr rfl)
    exact absurd unequal (by decide)

end Library

end QuizVariants
