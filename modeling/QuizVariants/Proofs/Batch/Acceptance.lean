import QuizVariants.Batch
import Mathlib.Data.Finset.Card
import Mathlib.Data.Finset.Range
import Mathlib.Data.Finset.Image

/-! Acceptable trials.
Which trials of a sequence a batch may hold is said by their places alone: a trial is acceptable
when duplicates are allowed or when its statement differs from those of all trials before it.
-/

namespace QuizVariants.Batch

/-- The statement of a trial differs from the statements of all trials before it. -/
def IsNew (trials : Nat → Instantiation) (place : Nat) : Prop :=
  ∀ earlier < place, (trials earlier).variant.statement ≠ (trials place).variant.statement

instance (trials : Nat → Instantiation) (place : Nat) : Decidable (IsNew trials place) :=
  inferInstanceAs (Decidable (∀ earlier < place, _ ≠ _))

/-- A trial that a batch may hold. -/
def IsAcceptable (options : Options) (trials : Nat → Instantiation) (place : Nat) : Prop :=
  IsNew trials place ∨ options.duplicatesAllowed = true

instance (options : Options) (trials : Nat → Instantiation) (place : Nat)
    : Decidable (IsAcceptable options trials place) :=
  inferInstanceAs (Decidable (_ ∨ _))

/-- The acceptable ones of the first `attempts` trials, in order. -/
def acceptable (options : Options) (trials : Nat → Instantiation) (attempts : Nat)
    : List Instantiation :=
  ((List.range attempts).filter (fun place => IsAcceptable options trials place)).map trials

variable {options : Options} {trials : Nat → Instantiation}

/-- One more trial adds itself at the end or nothing, by the range's last place. -/
theorem acceptable_succ (options : Options) (trials : Nat → Instantiation) (attempts : Nat)
    : acceptable options trials (attempts + 1)
        = acceptable options trials attempts
          ++ if IsAcceptable options trials attempts then [trials attempts] else [] := by
  by_cases h : IsAcceptable options trials attempts <;>
    simp [acceptable, List.range_succ, h]

/-- One more trial adds at most one; witness: the appended list has at most one item. -/
theorem length_acceptable_succ_le (options : Options) (trials : Nat → Instantiation)
    (attempts : Nat)
    : (acceptable options trials (attempts + 1)).length
        ≤ (acceptable options trials attempts).length + 1 := by
  rw [acceptable_succ, List.length_append]
  split <;> simp

/-- Later trials take nothing away, by induction on their number. -/
theorem length_acceptable_mono {first second : Nat} (h : first ≤ second)
    : (acceptable options trials first).length ≤ (acceptable options trials second).length := by
  induction second, h using Nat.le_induction with
  | base => exact Nat.le_refl _
  | succ second _ ih =>
      rw [acceptable_succ, List.length_append]
      omega

/-- Where duplicates are allowed every trial is acceptable; witness: the filter keeps all. -/
theorem acceptable_of_duplicatesAllowed (allowed : options.duplicatesAllowed = true)
    (attempts : Nat)
    : acceptable options trials attempts = (List.range attempts).map trials := by
  have all : ∀ place ∈ List.range attempts,
      decide (IsAcceptable options trials place) = true := by
    intro place _
    exact decide_eq_true (Or.inr allowed)
  rw [acceptable, List.filter_eq_self.mpr all]

/-- An acceptable statement is the statement of one of the trials, by the range's members. -/
theorem exists_of_mem_acceptable {attempts : Nat} {statement : String}
    (member
      : statement
        ∈ (acceptable options trials attempts).map (fun trial => trial.variant.statement))
    : ∃ place < attempts, (trials place).variant.statement = statement := by
  simp only [acceptable, List.map_map, List.mem_map, List.mem_filter, List.mem_range] at member
  obtain ⟨place, ⟨before, _⟩, same⟩ := member
  exact ⟨place, before, same⟩

/-- No statement that was tried is lost: its first trial is acceptable. -/
theorem statement_mem_acceptable (options : Options) (trials : Nat → Instantiation)
    {attempts place : Nat} (before : place < attempts)
    : (trials place).variant.statement
        ∈ (acceptable options trials attempts).map (fun trial => trial.variant.statement) := by
  induction place using Nat.strong_induction_on with
  | _ place ih =>
      by_cases fresh : IsNew trials place
      · simp only [acceptable, List.map_map, List.mem_map, List.mem_filter, List.mem_range]
        exact ⟨place, ⟨before, decide_eq_true (Or.inl fresh)⟩, rfl⟩
      -- A statement that is not new was tried before, and the first such place is acceptable.
      · simp only [IsNew, not_forall, not_not] at fresh
        obtain ⟨earlier, less, same⟩ := fresh
        rw [← same]
        exact ih earlier less (less.trans before)

/-- Without duplicates the acceptable statements are distinct, by induction on the trials. -/
theorem nodup_acceptable (single : options.duplicatesAllowed = false) (attempts : Nat)
    : ((acceptable options trials attempts).map (fun trial => trial.variant.statement)).Nodup := by
  induction attempts with
  | zero => simp [acceptable]
  | succ attempts ih =>
      rw [acceptable_succ]
      split
      · next accepts =>
        have fresh : IsNew trials attempts := by simpa [IsAcceptable, single] using accepts
        rw [List.map_append, List.nodup_append]
        refine ⟨ih, by simp, ?_⟩
        intro statement member other last same
        obtain ⟨place, before, shown⟩ := exists_of_mem_acceptable member
        have trialed : other = (trials attempts).variant.statement := by simpa using last
        exact fresh place before (by rw [shown, same, trialed])
      · simpa using ih

/-- Without duplicates there are as many acceptable trials as distinct statements, since the
acceptable statements are distinct and all statements are among them. -/
theorem length_acceptable_eq_card (single : options.duplicatesAllowed = false) (attempts : Nat)
    : (acceptable options trials attempts).length
        = ((Finset.range attempts).image
            (fun place => (trials place).variant.statement)).card := by
  have same
      : (Finset.range attempts).image (fun place => (trials place).variant.statement)
        = ((acceptable options trials attempts).map
            (fun trial => trial.variant.statement)).toFinset := by
    ext statement
    simp only [Finset.mem_image, Finset.mem_range, List.mem_toFinset]
    constructor
    · rintro ⟨place, before, rfl⟩
      exact statement_mem_acceptable options trials before
    · intro member
      exact exists_of_mem_acceptable member
  rw [same, List.toFinset_card_of_nodup (nodup_acceptable single attempts), List.length_map]

end QuizVariants.Batch
