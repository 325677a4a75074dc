import QuizVariants.Expr.Eval
import QuizVariants.Proofs.Draws.Runs
import QuizVariants.Proofs.Value.Distinct

/-! Sets.
A set is written as a list of items, which are evaluated in a row. Its value is the list of those
values to which no earlier one of them is loosely equal.
-/

namespace QuizVariants.Expr

open QuizVariants.Evaluation
open QuizVariants.Value (EqualAt KeptPlaces distinct)

/-- Items that are evaluated in a row have values, each on the draws that the one before it
leaves. -/
inductive EvaluateTo (scope : Scope) : List Expr → Draws → List Value → Draws → Prop where
  | nil (draws : Draws) : EvaluateTo scope [] draws [] draws
  | cons {item : Expr} {items : List Expr} {value : Value} {values : List Value}
      {draws between rest : Draws} (first : (item.eval scope).outcome draws = (.ok value, between))
      (others : EvaluateTo scope items between values rest)
      : EvaluateTo scope (item :: items) draws (value :: values) rest

/-- Items have values in a row exactly if their evaluation has a value, by induction on them. -/
theorem outcome_evalItems_eq_ok_iff {scope : Scope} {items : List Expr} {values : List Value}
    {draws rest : Draws}
    : (evalItems scope items).outcome draws = (.ok values, rest)
      ↔ EvaluateTo scope items draws values rest := by
  induction items generalizing draws values with
  | nil =>
      constructor
      · rintro ⟨⟩
        exact .nil _
      · rintro ⟨⟩
        rfl
  | cons item items ih =>
      rw [evalItems]
      simp only [outcome_bind_eq_ok_iff]
      constructor
      · rintro ⟨value, between, first, values, _, others, ⟨⟩⟩
        exact .cons first (ih.mp others)
      · rintro (_ | ⟨first, others⟩)
        exact ⟨_, _, first, _, _, ih.mpr others, rfl⟩

theorem EvaluateTo.outcome_set {scope : Scope} {items : List Expr} {values : List Value}
    {draws rest : Draws} (h : EvaluateTo scope items draws values rest)
    : ((Expr.set items).eval scope).outcome draws = (.ok (.list (distinct values)), rest) := by
  rw [eval, outcome_bind_eq_ok_iff]
  exact ⟨values, rest, outcome_evalItems_eq_ok_iff.mpr h, rfl⟩

/-- A set is the list of its distinct values.
It keeps a value exactly if no earlier kept one is loosely equal to it, which settles the places of
the kept values, and keeps their order. Of two kept values neither is loosely equal to the other,
every value is kept or an earlier kept one is loosely equal to it, and a set of the kept values,
from whatever items in whatever scope, keeps all of them. -/
theorem eval_set_keeps {scope : Scope} {items : List Expr} {values : List Value}
    {draws rest : Draws} (evaluated : EvaluateTo scope items draws values rest)
    : ∃ kept places,
        ((Expr.set items).eval scope).outcome draws = (.ok (.list kept), rest)
        ∧ places.map (values[·]?) = kept.map some
        ∧ KeptPlaces values places
        ∧ (∀ others, KeptPlaces values others → others = places)
        ∧ (kept.Pairwise fun a b => a.looselyEquals b = false ∧ b.looselyEquals a = false)
        ∧ (∀ place < values.length,
            place ∈ places ∨ ∃ earlier ∈ places, earlier < place ∧ EqualAt values earlier place)
        ∧ ∀ scope items draws rest,
            EvaluateTo scope items draws kept rest
            → ((Expr.set items).eval scope).outcome draws = (.ok (.list kept), rest) := by
  obtain ⟨places, kept, stand⟩ := Value.exists_keptPlaces values
  have apart := Value.pairwise_distinct values
  refine ⟨distinct values, places, evaluated.outcome_set, stand, kept, fun _ => kept.unique,
    apart.imp fun {a b} unequal => ⟨unequal, Value.looselyEquals_comm a b ▸ unequal⟩,
    fun place bound => ?_, fun scope items draws rest again => ?_⟩
  · by_cases member : place ∈ places
    · exact .inl member
    · rw [kept.kept_iff place bound] at member
      push Not at member
      exact .inr member
  · rw [again.outcome_set, Value.distinct_of_pairwise apart]

/-- A float that stands between two fractions is loosely equal to both, but these are not so to each
other: it is left out for the first one, and the second one is kept. -/
theorem eval_set_between
    : let scope : Scope := ⟨.empty, {}⟩
      let draws : Draws := ⟨id, 0⟩
      let above : Rational := .integer 9007199254740993
      let between : Float := 9007199254740992.0
      let below : Rational := .integer 9007199254740992
      let items : List Expr := [.number above, .float between, .number below]
      EvaluateTo scope items draws [.number above, .float between, .number below] draws
      ∧ (Value.number above).looselyEquals (.float between)
      ∧ (Value.float between).looselyEquals (.number below)
      ∧ ((Expr.set items).eval scope).outcome draws
        = (.ok (.list [.number above, .number below]), draws) := by
  intro scope draws above between below items
  let values : List Value := [.number above, .float between, .number below]
  have evaluated : EvaluateTo scope items draws values draws :=
    .cons rfl (.cons rfl (.cons rfl (.nil draws)))
  have first : (Value.number above).looselyEquals (.float between) = true := by decide +kernel
  have second : (Value.float between).looselyEquals (.number below) = true := by decide +kernel
  have apart : (Value.number above).looselyEquals (.number below) = false := by decide +kernel
  obtain ⟨kept, places, outcome, stand, _, unique, _⟩ := eval_set_keeps evaluated
  have ends : KeptPlaces values [0, 2] := by
    refine ⟨by decide, by decide, fun place bound => ?_⟩
    have bound : place < 3 := bound
    interval_cases place <;> simp [EqualAt, values, first, apart]
  obtain rfl := unique _ ends
  refine ⟨evaluated, first, second, outcome.trans ?_⟩
  have same : kept = [.number above, .number below] :=
    (List.map_inj_right fun _ _ => Option.some.inj).mp stand.symm
  rw [same]

end QuizVariants.Expr
