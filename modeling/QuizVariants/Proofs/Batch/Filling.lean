import Mathlib.Algebra.Order.Ring.Nat
import QuizVariants.Proofs.Batch.Acceptance
import QuizVariants.Proofs.Draws.Runs

/-! Filling a batch.
A batch is the acceptable part of a sequence of trials, cut off at the first place where it is
full or where the attempts are used up. One attempt keeps the account of what was tried; the
whole loop follows by induction on the attempts that are left.
-/

namespace QuizVariants.Batch

open QuizVariants.Random

/-- The first `attempts` trials are accounted for in a progress. -/
structure Progress.Tracks (options : Options) (trials : Nat → Instantiation) (attempts : Nat)
    (progress : Progress)
    : Prop where
  seen
    : ∀ statement,
        statement ∈ progress.seen
        ↔ ∃ place < attempts, (trials place).variant.statement = statement
  accepted : progress.accepted.reverse = acceptable options trials attempts
  attemptCount : progress.metrics.attempts = attempts
  acceptedCount : progress.metrics.accepted = (acceptable options trials attempts).length
  rejectedCount : progress.metrics.accepted + progress.metrics.duplicatesRejected = attempts
  absentCount
    : progress.metrics.absentParameters
      = ((List.range attempts).map (fun place => (trials place).absent.length)).sum
  unresolvedCount
    : progress.metrics.unresolvedPlaceholders
      = ((List.range attempts).map (fun place => (trials place).unresolved)).sum

variable {options : Options} {trials : Nat → Instantiation}

theorem Progress.Tracks.start (options : Options) (trials : Nat → Instantiation)
    : Progress.Tracks options trials 0 {} where
  seen := by simp
  accepted := rfl
  attemptCount := rfl
  acceptedCount := rfl
  rejectedCount := rfl
  absentCount := rfl
  unresolvedCount := rfl

/-- A statement is missing from an account exactly when the next trial is new. -/
theorem Progress.Tracks.isNew_iff {attempts : Nat} {progress : Progress}
    (tracks : progress.Tracks options trials attempts)
    : (!progress.seen.contains (trials attempts).variant.statement) = true
      ↔ IsNew trials attempts := by
  rw [Bool.not_eq_true', ← Bool.not_eq_true, List.contains_iff_mem, tracks.seen]
  simp [IsNew]

/-- Taking in the next trial adds its statement to those that were tried. -/
theorem Progress.Tracks.seen_take {attempts : Nat} {progress : Progress}
    (tracks : progress.Tracks options trials attempts) (statement : String)
    : statement ∈ (progress.take options (trials attempts)).seen
      ↔ ∃ place < attempts + 1, (trials place).variant.statement = statement := by
  have before
      : (∃ place < attempts + 1, (trials place).variant.statement = statement)
        ↔ (∃ place < attempts, (trials place).variant.statement = statement)
          ∨ (trials attempts).variant.statement = statement := by
    simp only [Nat.lt_succ_iff_lt_or_eq, or_and_right, exists_or, exists_eq_left]
  rw [before, ← tracks.seen]
  -- A statement that was seen before is not listed a second time.
  by_cases fresh : (trials attempts).variant.statement ∈ progress.seen
  · simp only [Progress.take, List.contains_iff_mem.mpr fresh, Bool.not_true]
    constructor
    · exact Or.inl
    · rintro (member | rfl)
      · exact member
      · exact fresh
  · simp [Progress.take, fresh, eq_comm, or_comm]

/-- Taking in the next trial accepts it exactly if it is acceptable, and rejects it otherwise.
Witness: the test of the loop is acceptance by place, so that both sides add the same trial.
-/
theorem Progress.Tracks.accepted_take {attempts : Nat} {progress : Progress}
    (tracks : progress.Tracks options trials attempts)
    : let taken := progress.take options (trials attempts)
      taken.accepted.reverse = acceptable options trials (attempts + 1)
      ∧ taken.metrics.accepted = (acceptable options trials (attempts + 1)).length
      ∧ taken.metrics.accepted + taken.metrics.duplicatesRejected = attempts + 1 := by
  have accepts
      : (!progress.seen.contains (trials attempts).variant.statement
          || options.duplicatesAllowed) = true
        ↔ IsAcceptable options trials attempts := by
    rw [Bool.or_eq_true, tracks.isNew_iff]
    rfl
  have rejected := tracks.rejectedCount
  rw [acceptable_succ, List.length_append, ← tracks.acceptedCount, ← tracks.accepted]
  by_cases h : IsAcceptable options trials attempts
  · simp only [Progress.take, if_pos (accepts.mpr h), if_pos h]
    refine ⟨List.reverse_cons, rfl, ?_⟩
    omega
  · simp only [Progress.take, if_neg (mt accepts.mp h), if_neg h]
    refine ⟨(List.append_nil _).symm, rfl, ?_⟩
    omega

/-- Taking in the next trial accounts for one more attempt. -/
theorem Progress.Tracks.take {attempts : Nat} {progress : Progress}
    (tracks : progress.Tracks options trials attempts)
    : (progress.take options (trials attempts)).Tracks options trials (attempts + 1) := by
  obtain ⟨accepted, acceptedCount, rejectedCount⟩ := tracks.accepted_take
  refine {
    seen := tracks.seen_take
    accepted := accepted
    attemptCount := ?_
    acceptedCount := acceptedCount
    rejectedCount := rejectedCount
    absentCount := ?_
    unresolvedCount := ?_
  }
  · simp [Progress.take, tracks.attemptCount]
  · simp [Progress.take, tracks.absentCount, List.range_succ]
  · simp [Progress.take, tracks.unresolvedCount, List.range_succ]

/-- The loop stops at the first place where the batch is full, or where the attempts end, with
all trials up to it accounted for; by induction on the attempts that are left. -/
theorem fill_tracks (plan : Plan) (context : Context) (options : Options) (count : Nat)
    (draws : Draws) (attempts : Nat) {tried : Nat} {progress : Progress}
    (tracks : progress.Tracks options (trial (plan.instantiate context) draws) tried)
    : ∃ stop finished,
        (fill plan context options count attempts progress).run
            (drawsAfter (plan.instantiate context) draws tried)
          = (finished, drawsAfter (plan.instantiate context) draws stop)
        ∧ finished.Tracks options (trial (plan.instantiate context) draws) stop
        ∧ tried ≤ stop
        ∧ stop ≤ tried + attempts
        ∧ (count ≤ finished.metrics.accepted ∨ stop = tried + attempts)
        ∧ ∀ place, tried ≤ place → place < stop →
            (acceptable options (trial (plan.instantiate context) draws) place).length
              < count := by
  induction attempts generalizing tried progress with
  | zero =>
      refine ⟨tried, progress, rfl, tracks, Nat.le_refl _, Nat.le_refl _, Or.inr rfl, ?_⟩
      intro place _ _
      omega
  | succ attempts ih =>
      -- The loop looks whether the batch is full before it draws.
      by_cases full : count ≤ progress.metrics.accepted
      · refine ⟨tried, progress, ?_, tracks, Nat.le_refl _, by omega, Or.inl full, ?_⟩
        · rw [fill, if_pos full]
          rfl
        · intro place _ _
          omega
      · obtain ⟨stop, finished, run, ends, less, within, why, before⟩ := ih tracks.take
        refine ⟨stop, finished, ?_, ends, by omega, by omega, by omega, ?_⟩
        · rw [fill, if_neg full, run_bind, run_drawsAfter]
          exact run
        · intro place least most
          rcases Nat.eq_or_lt_of_le least with rfl | later
          · rw [← tracks.acceptedCount]
            omega
          · exact before place later most

end QuizVariants.Batch
