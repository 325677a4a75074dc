import QuizVariants.Proofs.Batch.Filling

/-! Generated batches.
Instantiating a definition again and again gives a sequence of trials that does not depend on how
a batch is filled. A batch holds the acceptable ones of an initial part of it, and that part is
the shortest one which fills the batch unless the attempts are used up before. A request for more
variants than can be addressed has no batch and makes no attempt.
-/

namespace QuizVariants.Batch

open QuizVariants.Random

/-- A batch holds the acceptable ones of the trials that it attempted, with their values, and its
metrics count them. No shorter part of the trials has `count` acceptable ones, and a batch that
holds less than that has used up its attempts.
-/
structure Gathers (options : Options) (count : Nat) (trials : Nat → Instantiation)
    (batch : Batch)
    : Prop where
  variants
    : batch.variants
      = (acceptable options trials batch.metrics.attempts).map Instantiation.variant
  values
    : batch.values = (acceptable options trials batch.metrics.attempts).map Instantiation.values
  length_variants : batch.variants.length = batch.metrics.accepted
  length_values : batch.values.length = batch.metrics.accepted
  accepted_le : batch.metrics.accepted ≤ count
  attempts_eq
    : batch.metrics.attempts = batch.metrics.accepted + batch.metrics.duplicatesRejected
  absent
    : batch.metrics.absentParameters
      = ((List.range batch.metrics.attempts).map (fun place => (trials place).absent.length)).sum
  unresolved
    : batch.metrics.unresolvedPlaceholders
      = ((List.range batch.metrics.attempts).map (fun place => (trials place).unresolved)).sum
  shortest
    : ∀ attempts < batch.metrics.attempts,
        (acceptable options trials attempts).length < count
  complete_iff : batch.status = .complete ↔ batch.metrics.accepted = count
  exhausted_iff : batch.status = .exhausted ↔ batch.metrics.accepted < count

variable {options : Options} {count : Nat} {trials : Nat → Instantiation}

/-- The batch of a progress that stopped in time gathers its trials.
Witness: before the last trial the batch was not full, and that trial added at most one variant.
-/
theorem Gathers.ofProgress (problem : String) {attempts : Nat} {progress : Progress}
    (tracks : progress.Tracks options trials attempts)
    (before : ∀ place < attempts, (acceptable options trials place).length < count)
    : (Batch.ofProgress problem count progress).Gathers options count trials := by
  have attempted : (Batch.ofProgress problem count progress).metrics.attempts = attempts :=
    tracks.attemptCount
  have gathered := tracks.accepted
  have bounded : (acceptable options trials attempts).length ≤ count := by
    cases attempts with
    | zero => exact Nat.zero_le _
    | succ earlier =>
        have less := before earlier (Nat.lt_succ_self _)
        have more := length_acceptable_succ_le options trials earlier
        omega
  have counted := tracks.acceptedCount
  refine {
    variants := ?_
    values := ?_
    length_variants := ?_
    length_values := ?_
    accepted_le := ?_
    attempts_eq := ?_
    absent := ?_
    unresolved := ?_
    shortest := ?_
    complete_iff := ?_
    exhausted_iff := ?_
  }
  · rw [attempted, ← gathered]
    rfl
  · rw [attempted, ← gathered]
    rfl
  · simp [Batch.ofProgress, counted, ← gathered]
  · simp [Batch.ofProgress, counted, ← gathered]
  · exact counted.trans_le bounded
  · exact attempted.trans tracks.rejectedCount.symm
  · rw [attempted]
    exact tracks.absentCount
  · rw [attempted]
    exact tracks.unresolvedCount
  · rw [attempted]
    exact before
  · by_cases less : progress.metrics.accepted < count
    · simp [Batch.ofProgress, less, Nat.ne_of_lt less]
    · have full : progress.metrics.accepted = count := by omega
      simp [Batch.ofProgress, full]
  · by_cases less : progress.metrics.accepted < count <;> simp [Batch.ofProgress, less]

theorem Gathers.accepted_eq {batch : Batch} (gathers : batch.Gathers options count trials)
    : batch.metrics.accepted
      = (acceptable options trials batch.metrics.attempts).length := by
  rw [← gathers.length_variants, gathers.variants, List.length_map]

/-- Where duplicates are allowed, a batch under a limit holds the first trials, as many of them
as it may; witness: every trial counts, so that the smaller bound ends the loop. -/
theorem Gathers.variants_of_duplicatesAllowed {batch : Batch} {limit : Nat}
    (gathers : batch.Gathers options count trials)
    (allowed : options.duplicatesAllowed = true)
    (within : batch.metrics.attempts ≤ limit)
    (ended : batch.status = .exhausted → batch.metrics.attempts = limit)
    : batch.variants
      = (List.range (min count limit)).map (fun place => (trials place).variant) := by
  have all : acceptable options trials batch.metrics.attempts
      = (List.range batch.metrics.attempts).map trials :=
    acceptable_of_duplicatesAllowed allowed batch.metrics.attempts
  have counted : batch.metrics.accepted = batch.metrics.attempts := by
    rw [gathers.accepted_eq, all]
    simp
  have size : batch.metrics.attempts = min count limit := by
    cases status : batch.status with
    | complete =>
        have full := gathers.complete_iff.mp status
        omega
    | exhausted =>
        have less := gathers.exhausted_iff.mp status
        have last := ended status
        omega
  rw [gathers.variants, all, size, List.map_map]
  rfl

/-- Where enough trials are acceptable within the limit, a batch is complete by then.
Witness: a longer batch would have a full part that is shorter than itself, and a batch that was
given up has attempted all of them.
-/
theorem Gathers.complete_of_full {batch : Batch} (gathers : batch.Gathers options count trials)
    {attempts limit : Nat} (before : attempts ≤ limit)
    (full : count ≤ (acceptable options trials attempts).length)
    (ended : batch.status = .exhausted → batch.metrics.attempts = limit)
    : batch.metrics.attempts ≤ attempts ∧ batch.status = .complete := by
  have early : batch.metrics.attempts ≤ attempts := by
    by_contra late
    have less := gathers.shortest attempts (Nat.lt_of_not_le late)
    omega
  refine ⟨early, ?_⟩
  cases status : batch.status with
  | complete => rfl
  | exhausted =>
      have last := ended status
      have less := gathers.exhausted_iff.mp status
      have same : batch.metrics.attempts = attempts := by omega
      rw [gathers.accepted_eq, same] at less
      omega

/-- Where too few trials are acceptable within the limit, a batch is given up. -/
theorem Gathers.exhausted_of_few {batch : Batch} (gathers : batch.Gathers options count trials)
    {limit : Nat} (within : batch.metrics.attempts ≤ limit)
    (few : (acceptable options trials limit).length < count)
    : batch.status = .exhausted := by
  apply gathers.exhausted_iff.mpr
  rw [gathers.accepted_eq]
  exact (length_acceptable_mono within).trans_lt few

/-- Without duplicates the statements of a batch are distinct; witness: acceptable ones are. -/
theorem Gathers.nodup_statements {batch : Batch} (gathers : batch.Gathers options count trials)
    (single : options.duplicatesAllowed = false)
    : (batch.variants.map Variant.statement).Nodup := by
  rw [gathers.variants, List.map_map]
  exact nodup_acceptable single batch.metrics.attempts

/-- Every statement that was attempted is in the batch; witness: its first trial. -/
theorem Gathers.statement_mem {batch : Batch} (gathers : batch.Gathers options count trials)
    {place : Nat} (attempted : place < batch.metrics.attempts)
    : (trials place).variant.statement ∈ batch.variants.map Variant.statement := by
  rw [gathers.variants, List.map_map]
  exact statement_mem_acceptable options trials attempted

/-- A request for more variants than can be addressed ends before its first draw. -/
theorem run_generate_of_tooMany (definition : Definition) (context : Context)
    (options : Options) {count : Nat} (horizon : Nat) (draws : Draws)
    (large : addressableCount < count)
    : (generate definition context options count horizon).run draws = (.error .tooMany, draws) := by
  rw [generate, if_pos large]
  rfl

/-- What the loop leaves is a gathered batch within the attempts, which is given up only when it
is not full and has no limit; witness: the loop from an empty progress. -/
theorem run_generate (definition : Definition) (context : Context) (options : Options)
    {count : Nat} (horizon : Nat) (draws : Draws) (addressable : count ≤ addressableCount)
    : ∃ batch : Batch,
        batch.Gathers options count (trial (definition.instantiate context) draws)
        ∧ batch.metrics.attempts ≤ options.maxAttempts.getD horizon
        ∧ (batch.status = .exhausted
            → batch.metrics.attempts = options.maxAttempts.getD horizon)
        ∧ (generate definition context options count horizon).run draws
          = (if options.maxAttempts = none ∧ batch.status = .exhausted then .error .unfinished
              else .ok batch,
              drawsAfter (definition.instantiate context) draws batch.metrics.attempts) := by
  obtain ⟨stop, finished, run, tracks, _, within, why, before⟩ :=
    fill_tracks (Plan.ofDefinition definition) context options count draws
      (options.maxAttempts.getD horizon)
      (Progress.Tracks.start options (trial (definition.instantiate context) draws))
  have gathers := Gathers.ofProgress definition.problemId tracks
    (fun place less => before place (Nat.zero_le place) less)
  have attempted
      : (ofProgress definition.problemId count finished).metrics.attempts = stop :=
    tracks.attemptCount
  refine ⟨ofProgress definition.problemId count finished, gathers, ?_, ?_, ?_⟩
  · omega
  · intro exhausted
    have less : finished.metrics.accepted < count := gathers.exhausted_iff.mp exhausted
    omega
  · rw [attempted]
    rw [generate, if_neg (Nat.not_lt.mpr addressable), run_bind,
      show (fill _ _ _ _ _ _).run draws = _ from run]
    -- Only a batch that was given up without a limit is withheld.
    cases limit : options.maxAttempts <;>
      cases status : (ofProgress definition.problemId count finished).status <;>
      simp only [status, if_true, if_false, and_true, and_false, reduceCtorEq] <;>
      rfl

/-- Every batch that is given gathers its trials; witness: a request beyond the bound has none. -/
theorem gathers_of_generate {definition : Definition} {context : Context} {horizon : Nat}
    {draws : Draws} {batch : Batch}
    (given : ((generate definition context options count horizon).run draws).1 = .ok batch)
    : batch.Gathers options count (trial (definition.instantiate context) draws) := by
  by_cases large : addressableCount < count
  · rw [run_generate_of_tooMany definition context options horizon draws large] at given
    exact nomatch given
  · obtain ⟨found, gathers, _, _, ran⟩ :=
      run_generate definition context options horizon draws (Nat.not_lt.mp large)
    rw [ran] at given
    dsimp only at given
    split at given
    · exact nomatch given
    · obtain rfl := Except.ok.inj given
      exact gathers

/-- A batch is the acceptable part of the trials of a definition, up to the first place where it
is full or where its attempts end. A request for more variants than can be addressed has no batch,
even with a limit that allows for fewer attempts. For all others there always is a batch with a
limit; without one there is a batch as soon as enough trials are acceptable, and none before.
Without duplicates, the acceptable trials are as many as the distinct statements, and those of a
batch are all that it attempted.
-/
theorem generate_gathers (definition : Definition) (context : Context) (options : Options)
    (count horizon : Nat) (draws : Draws)
    : let instantiate := definition.instantiate context
      let trials := trial instantiate draws
      let run := (generate definition context options count horizon).run draws
      (addressableCount < count → run = (.error .tooMany, draws))
      ∧ (count ≤ addressableCount
        → (∀ limit,
            options.maxAttempts = some limit
            → ∃ batch : Batch,
                run = (.ok batch, drawsAfter instantiate draws batch.metrics.attempts)
                ∧ batch.Gathers options count trials
                ∧ batch.metrics.attempts ≤ limit
                ∧ (batch.status = .exhausted → batch.metrics.attempts = limit)
                ∧ (options.duplicatesAllowed = true
                    → batch.variants
                      = (List.range (min count limit)).map (fun place => (trials place).variant)))
          ∧ (options.maxAttempts = none
              → (∀ attempts ≤ horizon,
                  count ≤ (acceptable options trials attempts).length
                  → ∃ batch : Batch,
                      run = (.ok batch, drawsAfter instantiate draws batch.metrics.attempts)
                      ∧ batch.Gathers options count trials
                      ∧ batch.metrics.attempts ≤ attempts
                      ∧ batch.status = .complete)
                ∧ ((acceptable options trials horizon).length < count
                    → run.1 = .error .unfinished)))
      ∧ (options.duplicatesAllowed = false
          → (∀ attempts,
              (acceptable options trials attempts).length
              = ((Finset.range attempts).image
                  (fun place => (trials place).variant.statement)).card)
            ∧ ∀ batch,
                run.1 = .ok batch
                → (batch.variants.map Variant.statement).Nodup
                  ∧ ∀ place < batch.metrics.attempts,
                      (trials place).variant.statement
                      ∈ batch.variants.map Variant.statement) := by
  intro instantiate trials run
  refine ⟨run_generate_of_tooMany definition context options horizon draws, ?_, ?_⟩
  · intro addressable
    obtain ⟨batch, gathers, within, ended, ran⟩ :=
      run_generate definition context options horizon draws addressable
    change batch.Gathers options count trials at gathers
    refine ⟨?_, ?_⟩
    · intro limit limited
      simp only [limited, Option.getD_some] at within ended
      refine ⟨batch, ?_, gathers, within, ended, ?_⟩
      · simpa [limited] using ran
      · intro allowed
        exact gathers.variants_of_duplicatesAllowed allowed within ended
    · intro unlimited
      simp only [unlimited, Option.getD_none] at within ended
      refine ⟨?_, ?_⟩
      · intro attempts before full
        obtain ⟨early, status⟩ := gathers.complete_of_full before full ended
        refine ⟨batch, ?_, gathers, early, status⟩
        simpa [status] using ran
      · intro few
        have exhausted := gathers.exhausted_of_few within few
        exact (congrArg Prod.fst ran).trans (by simp [unlimited, exhausted])
  · intro single
    refine ⟨length_acceptable_eq_card single, ?_⟩
    intro found given
    have gathers := gathers_of_generate given
    exact ⟨gathers.nodup_statements single, fun place => gathers.statement_mem⟩

/-- A request for the largest word of variants has no batch, though it allows for one attempt; a
request for two variants ends after one attempt with one of them. -/
theorem generate_tooMany
    : ((generate { statement := "x" } {} { maxAttempts := some 1 } 18446744073709551615 0).run
          (.ofSeed 0)).1 = .error .tooMany
      ∧ ∃ batch,
        ((generate { statement := "x" } {} { maxAttempts := some 1 } 2 0).run (.ofSeed 0)).1
            = .ok batch
          ∧ batch.status = .exhausted
          ∧ batch.metrics.attempts = 1
          ∧ batch.variants.length = 1 :=
  ⟨rfl, _, rfl, rfl, rfl, rfl⟩

end QuizVariants.Batch
