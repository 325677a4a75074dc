import QuizVariants.EvalError

/-! Results that may be errors.
A computation of several steps has a value exactly when each of its steps has one.
-/

namespace QuizVariants

section

variable (result : Except ε α) (p : α → Prop) [DecidablePred p]

instance decidableEqOk [DecidableEq α] (value : α) : Decidable (result = .ok value) :=
  match result with
  | .ok other => decidable_of_iff (other = value) (by simp)
  | .error _ => isFalse (by simp)

/-- A result is looked at to see whether it is a value with a property. -/
instance decidableExistsOk : Decidable (∃ value, result = .ok value ∧ p value) :=
  match result with
  | .ok value => decidable_of_iff (p value) (by simp)
  | .error _ => isFalse (by simp)

instance decidableForallOk : Decidable (∀ value, result = .ok value → p value) :=
  match result with
  | .ok value => decidable_of_iff (p value) (by simp)
  | .error _ => isTrue (by simp)

end

theorem bind_eq_ok_iff {first : Except ε α} {next : α → Except ε β} {value : β}
    : first >>= next = .ok value ↔ ∃ between, first = .ok between ∧ next between = .ok value := by
  cases first with
  | error fault =>
      constructor
      · exact fun h => nomatch h
      · exact fun ⟨_, h, _⟩ => nomatch h
  | ok between =>
      constructor
      · exact fun h => ⟨between, rfl, h⟩
      · rintro ⟨_, ⟨⟩, h⟩
        exact h

/-- A computation of several steps fails as the first step without a value does. -/
theorem bind_eq_error_iff {first : Except ε α} {next : α → Except ε β} {fault : ε}
    : first >>= next = .error fault
      ↔ first = .error fault ∨ ∃ between, first = .ok between ∧ next between = .error fault := by
  cases first with
  | error other =>
      constructor
      · exact fun h => Or.inl (congrArg Except.error (Except.error.inj h))
      · rintro (⟨⟨⟩⟩ | ⟨_, h, _⟩)
        · rfl
        · exact nomatch h
  | ok between =>
      constructor
      · exact fun h => Or.inr ⟨between, rfl, h⟩
      · rintro (h | ⟨_, ⟨⟩, h⟩)
        · exact nomatch h
        · exact h

theorem map_eq_ok_iff {result : Except ε α} {f : α → β} {value : β}
    : result.map f = .ok value ↔ ∃ before, result = .ok before ∧ f before = value := by
  cases result <;> simp [Except.map]

/-- Arithmetic on fractions has the values that evaluation sees. -/
theorem exactly_eq_ok_iff {result : Except Rational.Fault α} {value : α}
    : exactly result = .ok value ↔ result = .ok value := by
  cases result with
  | error fault => exact iff_of_false nofun nofun
  | ok between =>
      have same : exactly (.ok between : Except Rational.Fault α) = .ok between := rfl
      rw [same, Except.ok.injEq, Except.ok.injEq]

/-- The results of a computation over a list are those of its items, by induction on the items. -/
theorem mem_mapM_iff {f : α → Except ε β} {items : List α} {results : List β}
    (h : items.mapM f = .ok results) {result : β}
    : result ∈ results ↔ ∃ item ∈ items, f item = .ok result := by
  induction items generalizing results with
  | nil =>
      obtain rfl := Except.ok.inj h
      simp
  | cons item items ih =>
      rw [List.mapM_cons] at h
      obtain ⟨first, head, h⟩ := bind_eq_ok_iff.mp h
      obtain ⟨others, tail, h⟩ := bind_eq_ok_iff.mp h
      obtain rfl := Except.ok.inj h
      simp [ih tail, head, eq_comm]

/-- Every item of a computation over a list has a result, by induction on the items. -/
theorem exists_of_mapM_eq_ok {f : α → Except ε β} {items : List α} {results : List β}
    (h : items.mapM f = .ok results) {item : α} (member : item ∈ items)
    : ∃ result, f item = .ok result := by
  induction items generalizing results with
  | nil => exact nomatch member
  | cons first items ih =>
      rw [List.mapM_cons] at h
      obtain ⟨result, head, h⟩ := bind_eq_ok_iff.mp h
      obtain ⟨others, tail, _⟩ := bind_eq_ok_iff.mp h
      rcases List.mem_cons.mp member with rfl | inside
      · exact ⟨result, head⟩
      · exact ih tail inside

/-- A computation over a list fails as one of the items does, by induction on the items. -/
theorem exists_of_mapM_eq_error {f : α → Except ε β} {items : List α} {fault : ε}
    (h : items.mapM f = .error fault)
    : ∃ item ∈ items, f item = .error fault := by
  induction items with
  | nil => exact nomatch h
  | cons item items ih =>
      rw [List.mapM_cons] at h
      cases first : f item with
      | error other =>
          rw [first] at h
          obtain rfl := Except.error.inj h
          exact ⟨item, List.mem_cons_self, first⟩
      | ok result =>
          cases rest : items.mapM f with
          | error other =>
              rw [first, rest] at h
              obtain rfl := Except.error.inj h
              obtain ⟨item, member, failed⟩ := ih rest
              exact ⟨item, List.mem_cons_of_mem _ member, failed⟩
          | ok results =>
              rw [first, rest] at h
              exact nomatch h

end QuizVariants
