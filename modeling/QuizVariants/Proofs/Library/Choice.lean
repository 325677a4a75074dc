import QuizVariants.Library.Choice
import QuizVariants.Proofs.Draws.Samples

/-! Drawing a candidate.
One of some candidates is drawn, whichever it is, and the only error is that there is none.
-/

namespace QuizVariants.Library

open QuizVariants.Evaluation

theorem admits_iff {excluded : List Value} {value : Value}
    : admits excluded value = true
      ↔ ∀ other ∈ excluded, other.looselyEquals value = false := by
  simp [admits]

/-- What comes of drawing one of some candidates: an error if there is none. -/
def afterChoice (candidates : List Value) (noneLeft : EvalError) (draws : Draws)
    : Except EvalError Value × Draws :=
  let chosen := (Random.choose? candidates).run draws
  (match chosen.1 with
    | some value => .ok value
    | none => .error noneLeft,
    chosen.2)

theorem outcome_choice (candidates : List Value) (noneLeft : EvalError) (draws : Draws)
    : (do
          match ← Evaluation.ofRandom (Random.choose? candidates) with
          | some value => return value
          | none => throw noneLeft : Evaluation Value).outcome draws
        = afterChoice candidates noneLeft draws := by
  rw [outcome_bind, outcome_ofRandom, afterChoice]
  generalize (Random.choose? candidates).run draws = chosen
  obtain ⟨_ | value, rest⟩ := chosen <;> rfl

theorem exists_afterChoice_eq_ok_iff {candidates : List Value} {noneLeft : EvalError}
    {value : Value}
    : (∃ draws, (afterChoice candidates noneLeft draws).1 = .ok value) ↔ value ∈ candidates := by
  constructor
  · rintro ⟨draws, returned⟩
    cases chosen : ((Random.choose? candidates).run draws).1 with
    | none =>
        rw [afterChoice, chosen] at returned
        exact nomatch returned
    | some other =>
        rw [afterChoice, chosen] at returned
        obtain rfl := Except.ok.inj returned
        exact Random.mem_of_choose? chosen
  · intro member
    obtain ⟨draws, chosen⟩ := Random.exists_choose? member
    refine ⟨draws, ?_⟩
    rw [afterChoice, chosen]

theorem afterChoice_eq_error_iff {candidates : List Value} {noneLeft fault : EvalError}
    {draws : Draws}
    : (afterChoice candidates noneLeft draws).1 = .error fault
      ↔ candidates = [] ∧ fault = noneLeft := by
  rw [← @Random.choose?_eq_none_iff _ candidates draws, afterChoice]
  cases ((Random.choose? candidates).run draws).1 with
  | none => simp [eq_comm]
  | some value => exact iff_of_false nofun nofun

end QuizVariants.Library
