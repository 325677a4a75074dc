import QuizVariants.Draws

/-! Runs of random computations.
A computation is a function of its draws, and of several runs in a row each one goes on with the
draws that the run before it left.
-/

namespace QuizVariants.Random

@[simp]
theorem run_bind (action : Random α) (next : α → Random β) (draws : Draws)
    : (action >>= next).run draws = (next (action.run draws).1).run (action.run draws).2 :=
  rfl

@[simp]
theorem run_pure (value : α) (draws : Draws)
    : (pure value : Random α).run draws = (value, draws) :=
  rfl

/-- Of two computations in a row that may fail, the second one runs on the draws that a value of
the first one leaves, and a failure of the first one ends both. -/
theorem run_bind_except {failure : Type} {α β : Type} (action : ExceptT failure Random α)
    (next : α → ExceptT failure Random β) (draws : Draws)
    : (action >>= next).run.run draws
        = match action.run.run draws with
          | (.ok value, rest) => (next value).run.run rest
          | (.error fault, rest) => (.error fault, rest) := by
  rcases first : action.run.run draws with ⟨result, rest⟩
  simp only [ExceptT.run_bind, run_bind, first]
  cases result <;> rfl

/-- The draws that `count` runs of a computation in a row leave. -/
def drawsAfter (action : Random α) (draws : Draws) : Nat → Draws
  | 0 => draws
  | count + 1 => (action.run (drawsAfter action draws count)).2

/-- The result of one of the runs of a computation in a row, which are counted from zero. -/
def trial (action : Random α) (draws : Draws) (place : Nat) : α :=
  (action.run (drawsAfter action draws place)).1

theorem run_drawsAfter (action : Random α) (draws : Draws) (count : Nat)
    : action.run (drawsAfter action draws count)
        = (trial action draws count, drawsAfter action draws (count + 1)) :=
  rfl

/-- Two computations that give related results on the same draws, and leave the same draws. -/
def Relates (related : α → β → Prop) (first : Random α) (second : Random β) : Prop :=
  ∀ draws,
    related (first.run draws).1 (second.run draws).1
    ∧ (first.run draws).2 = (second.run draws).2

theorem Relates.pure {related : α → β → Prop} {first : α} {second : β}
    (h : related first second)
    : Relates related (pure first) (pure second) :=
  fun _ => ⟨h, rfl⟩

theorem Relates.refl {related : α → α → Prop} (h : ∀ value, related value value)
    (action : Random α)
    : Relates related action action :=
  fun _ => ⟨h _, rfl⟩

/-- Computations in a row are related when those at each place are. -/
theorem Relates.bind {related : α → β → Prop} {ending : γ → δ → Prop} {first : Random α}
    {second : Random β} {next : α → Random γ} {later : β → Random δ}
    (h : Relates related first second)
    (others : ∀ a b, related a b → Relates ending (next a) (later b))
    : Relates ending (first >>= next) (second >>= later) := by
  intro draws
  obtain ⟨results, left⟩ := h draws
  rw [run_bind, run_bind, ← left]
  exact others _ _ results (first.run draws).2

end QuizVariants.Random

namespace QuizVariants.Evaluation

/-- What an evaluation gives on draws: its value or its error, and the draws that it leaves. -/
def outcome (action : Evaluation α) (draws : Draws) : Except EvalError α × Draws :=
  action.run.run draws

theorem outcome_ofExcept (result : Except EvalError α) (draws : Draws)
    : (Evaluation.ofExcept result).outcome draws = (result, draws) :=
  rfl

theorem outcome_ofRandom (action : Random α) (draws : Draws)
    : (Evaluation.ofRandom action).outcome draws
        = (.ok (action.run draws).1, (action.run draws).2) :=
  rfl

/-- The second of two evaluations in a row runs on the draws that a value of the first one leaves;
an error of the first one ends both. -/
theorem outcome_bind (action : Evaluation α) (next : α → Evaluation β) (draws : Draws)
    : (action >>= next).outcome draws
        = match action.outcome draws with
          | (.ok value, rest) => (next value).outcome rest
          | (.error fault, rest) => (.error fault, rest) := by
  rw [outcome, Random.run_bind_except, ← outcome]
  rcases action.outcome draws with ⟨fault | value, rest⟩ <;> rfl

/-- Two evaluations in a row give a value when both do, by cases on the first one's result. -/
theorem outcome_bind_eq_ok_iff {action : Evaluation α} {next : α → Evaluation β}
    {draws rest : Draws} {value : β}
    : (action >>= next).outcome draws = (.ok value, rest)
      ↔ ∃ first between,
          action.outcome draws = (.ok first, between)
          ∧ (next first).outcome between = (.ok value, rest) := by
  rw [outcome_bind]
  rcases action.outcome draws with ⟨fault | first, between⟩
  · simp
  · constructor
    · exact fun ran => ⟨first, between, rfl, ran⟩
    · rintro ⟨_, _, ⟨⟩, ran⟩
      exact ran

end QuizVariants.Evaluation
