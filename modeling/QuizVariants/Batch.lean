import QuizVariants.Variant.Instantiation

/-! Batches of variants.
A batch is filled by instantiating a plan again and again. A variant whose statement an earlier
attempt of the batch had is rejected unless duplicates are allowed, and a limit on the attempts
may end the batch before it is full. Room for all variants is taken before the first attempt, and a
request for more of them than can be addressed has no batch, whatever its limit.
-/

namespace QuizVariants

/-- How a batch is filled. -/
structure Batch.Options where
  /-- Whether a statement may occur more than once. -/
  duplicatesAllowed : Bool := false
  /-- The number of attempts after which the batch ends; without it only a full batch ends. -/
  maxAttempts : Option Nat := some 1000
  deriving Repr, DecidableEq

/-- Why a batch ended. -/
inductive Batch.Status where
  /-- The batch is full. -/
  | complete
  /-- The attempts are used up. -/
  | exhausted
  deriving Repr, DecidableEq

/-- Why there is no batch. -/
inductive Batch.Failure where
  /-- More variants are asked for than can be addressed. -/
  | tooMany
  /-- A batch without a limit was given up. -/
  | unfinished
  deriving Repr, DecidableEq

/-- What a batch cost. -/
structure Batch.Metrics where
  attempts : Nat := 0
  accepted : Nat := 0
  duplicatesRejected : Nat := 0
  absentParameters : Nat := 0
  unresolvedPlaceholders : Nat := 0
  deriving Repr, DecidableEq

/-- Variants of a problem with the values behind each of them. -/
structure Batch where
  variants : List Variant
  values : List (Table Value)
  status : Batch.Status
  metrics : Batch.Metrics
  warnings : List Warning

namespace Batch

/-- A batch that is being filled: the attempts so far and the accepted ones, both in reverse. -/
structure Progress where
  seen : List String := []
  accepted : List Instantiation := []
  metrics : Metrics := {}
  warnings : List Warning := []

def Progress.take (options : Options) (progress : Progress) (attempt : Instantiation)
    : Progress :=
  let statement := attempt.variant.statement
  let isNew := !progress.seen.contains statement
  let accepts := isNew || options.duplicatesAllowed
  let metrics := progress.metrics
  { seen := if isNew then statement :: progress.seen else progress.seen
    accepted := if accepts then attempt :: progress.accepted else progress.accepted
    metrics :=
      { attempts := metrics.attempts + 1
        accepted := metrics.accepted + if accepts then 1 else 0
        duplicatesRejected := metrics.duplicatesRejected + if accepts then 0 else 1
        absentParameters := metrics.absentParameters + attempt.absent.length
        unresolvedPlaceholders := metrics.unresolvedPlaceholders + attempt.unresolved }
    warnings := attempt.warnings.reverse ++ progress.warnings }

/-- Attempts until `count` variants are accepted, `attempts` times at most. -/
def fill (plan : Plan) (context : Context) (options : Options) (count : Nat)
    : (attempts : Nat) → Progress → Random Progress
  | 0, progress => return progress
  | attempts + 1, progress =>
    if count ≤ progress.metrics.accepted then return progress
    else do
      let attempt ← plan.instantiate context
      fill plan context options count attempts (progress.take options attempt)

def ofProgress (problem : String) (count : Nat) (progress : Progress) : Batch :=
  let metrics := progress.metrics
  let accepted := progress.accepted.reverse
  let exhausted := metrics.accepted < count
  { variants := accepted.map Instantiation.variant
    values := accepted.map Instantiation.values
    status := if exhausted then .exhausted else .complete
    metrics
    warnings :=
      progress.warnings.reverse ++
        if exhausted then
          [.budgetExhausted problem count metrics.accepted metrics.attempts
            metrics.duplicatesRejected]
        else [] }

/-- The number of variants that can be addressed: a variant takes eight records of three words, and
all of them together less than half of the address space. -/
def addressableCount : Nat := 0x7FFFFFFFFFFFFFFF / (8 * 3 * 8)

/-- A batch of `count` variants. Without a limit on the attempts the batch may never be full;
`horizon` attempts are made then, and there is no batch if they do not suffice. -/
def generate (definition : Definition) (context : Context) (options : Options)
    (count horizon : Nat) : Random (Except Failure Batch) := do
  if addressableCount < count then return .error .tooMany
  let plan := Plan.ofDefinition definition
  let progress ← fill plan context options count (options.maxAttempts.getD horizon) {}
  let batch := ofProgress definition.problemId count progress
  match options.maxAttempts, batch.status with
  | none, .exhausted => return .error .unfinished
  | _, _ => return .ok batch

/-- A batch of `count` variants, or nothing whatever the reason is. -/
def generate? (definition : Definition) (context : Context) (options : Options)
    (count horizon : Nat) : Random (Option Batch) := do
  return (← generate definition context options count horizon).toOption

def isComplete (batch : Batch) : Bool :=
  batch.status == .complete

def size (batch : Batch) : Nat :=
  batch.variants.length

def isEmpty (batch : Batch) : Bool :=
  batch.variants.isEmpty

/-- The share of attempts that were accepted. -/
def Metrics.acceptanceRate (metrics : Metrics) : Float :=
  if metrics.attempts = 0 then 0.0
  else Float.ofNat metrics.accepted / Float.ofNat metrics.attempts

end Batch

end QuizVariants
