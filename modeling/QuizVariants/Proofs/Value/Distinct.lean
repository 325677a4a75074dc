import Mathlib.Data.List.Induction
import Mathlib.Data.List.Sort
import QuizVariants.Proofs.Decimal.Order
import QuizVariants.Value.Order

/-! Distinct values.
Of values in a row a value is kept unless an earlier kept one is loosely equal to it. Loose equality
looks the same from both sides, but two values that are loosely equal to a third one need not be so
to each other, and what is not a number is not even loosely equal to itself.
-/

namespace QuizVariants.Value

-----------------------------------------------------------------------------------------
-- Loose equality from both sides
-----------------------------------------------------------------------------------------

theorem float_beq_comm (x y : Float) : (x == y) = (y == x) := by
  change (x.toModel.unpack.compare y.toModel.unpack == some .eq)
    = (y.toModel.unpack.compare x.toModel.unpack == some .eq)
  rw [Decimal.compare_swap x.toModel.unpack]
  rcases x.toModel.unpack.compare y.toModel.unpack with _ | _ | _ | _ <;> rfl

mutual

/-- Equality by structure looks the same from both sides, by cases on both values. -/
theorem same_comm (a b : Value) : same a b = same b a := by
  cases a with
  | float x =>
      cases b with
      | float y => exact float_beq_comm x y
      | number | bool | string | list | symbolic => rfl
  | list items =>
      cases b with
      | list others => exact sameItems_comm items others
      | number | float | bool | string | symbolic => rfl
  | number p =>
      cases b with
      | number q => exact BEq.comm
      | float | bool | string | list | symbolic => rfl
  | bool p =>
      cases b with
      | bool q => exact BEq.comm
      | number | float | string | list | symbolic => rfl
  | string text =>
      cases b with
      | string other => exact BEq.comm
      | number | float | bool | list | symbolic => rfl
  | symbolic markup =>
      cases b with
      | symbolic other => exact BEq.comm
      | number | float | bool | string | list => rfl

/-- Items in a row are equal from both sides, by induction on both lists. -/
theorem sameItems_comm (items others : List Value)
    : sameItems items others = sameItems others items := by
  cases items with
  | nil => cases others <;> rfl
  | cons first rest =>
      cases others with
      | nil => rfl
      | cons => exact congrArg₂ and (same_comm _ _) (sameItems_comm _ _)

end

/-- Loose equality looks the same from both sides: a fraction that meets a float becomes the same
float on either side of it. -/
theorem looselyEquals_comm (a b : Value) : a.looselyEquals b = b.looselyEquals a := by
  cases a with
  | number p =>
      cases b with
      | float y => exact float_beq_comm _ _
      | number | bool | string | list | symbolic => exact same_comm _ _
  | float x =>
      cases b with
      | number q => exact float_beq_comm _ _
      | float | bool | string | list | symbolic => exact same_comm _ _
  | bool | string | list | symbolic => cases b <;> exact same_comm _ _

-----------------------------------------------------------------------------------------
-- Kept values
-----------------------------------------------------------------------------------------

/-- One more value is kept at the end, or it is left out. -/
theorem distinct_concat (values : List Value) (value : Value)
    : distinct (values ++ [value])
        = if (distinct values).any (·.looselyEquals value) then distinct values
          else distinct values ++ [value] := by
  rw [distinct, List.foldl_append]
  rfl

/-- No kept value is loosely equal to a later one, by induction from the last value. -/
theorem pairwise_distinct (values : List Value)
    : (distinct values).Pairwise (fun earlier later => earlier.looselyEquals later = false) := by
  induction values using List.reverseRecOn with
  | nil => exact .nil
  | append_singleton values value ih =>
      rw [distinct_concat]
      split
      · exact ih
      · next fresh =>
        rw [List.pairwise_append]
        refine ⟨ih, List.pairwise_singleton _ _, fun earlier kept later last => ?_⟩
        obtain rfl := List.mem_singleton.mp last
        simp only [List.any_eq_true, not_exists, not_and, Bool.not_eq_true] at fresh
        exact fresh earlier kept

/-- Values of which none is loosely equal to a later one are all kept, by induction from the last
value. -/
theorem distinct_of_pairwise {values : List Value}
    (h : values.Pairwise (fun earlier later => earlier.looselyEquals later = false))
    : distinct values = values := by
  induction values using List.reverseRecOn with
  | nil => rfl
  | append_singleton values value ih =>
      obtain ⟨first, _, separate⟩ := List.pairwise_append.mp h
      have fresh : values.any (·.looselyEquals value) = false :=
        List.any_eq_false.mpr fun earlier kept =>
          Bool.not_eq_true _ ▸ separate earlier kept value (List.mem_singleton_self value)
      rw [distinct_concat, ih first, fresh, if_neg Bool.false_ne_true]

-----------------------------------------------------------------------------------------
-- The places of kept values
-----------------------------------------------------------------------------------------

/-- The value at one place is loosely equal to the one at another. -/
def EqualAt (values : List Value) (first second : Nat) : Prop :=
  ∃ a b, values[first]? = some a ∧ values[second]? = some b ∧ a.looselyEquals b = true

/-- Places in increasing order at which values are kept: a value is kept exactly if no earlier kept
one is loosely equal to it. -/
structure KeptPlaces (values : List Value) (places : List Nat) : Prop where
  increasing : places.SortedLT
  inside : ∀ place ∈ places, place < values.length
  kept_iff
    : ∀ place < values.length,
        place ∈ places ↔ ∀ earlier ∈ places, earlier < place → ¬ EqualAt values earlier place

/-- Which values are kept is settled place by place, by strong induction on the place. -/
theorem KeptPlaces.unique {values : List Value} {places others : List Nat}
    (h : KeptPlaces values places) (other : KeptPlaces values others)
    : others = places := by
  have same (place : Nat) : place ∈ others ↔ place ∈ places := by
    induction place using Nat.strong_induction_on with
    | _ place ih =>
        by_cases bound : place < values.length
        · rw [h.kept_iff place bound, other.kept_iff place bound]
          constructor
          · exact fun kept earlier member before =>
              kept earlier ((ih earlier before).mpr member) before
          · exact fun kept earlier member before =>
              kept earlier ((ih earlier before).mp member) before
        · exact iff_of_false (fun member => bound (other.inside place member))
            (fun member => bound (h.inside place member))
  exact other.increasing.eq_of_mem_iff h.increasing same

theorem equalAt_append {values more : List Value} {first second : Nat}
    (firstInside : first < values.length) (secondInside : second < values.length)
    : EqualAt (values ++ more) first second ↔ EqualAt values first second := by
  rw [EqualAt, EqualAt, List.getElem?_append_left firstInside,
    List.getElem?_append_left secondInside]

variable {values : List Value} {value : Value} {places : List Nat}

/-- Whether a value before the last one is kept is settled without the last one. -/
theorem KeptPlaces.kept_iff_append (h : KeptPlaces values places) {place : Nat}
    (bound : place < values.length)
    : place ∈ places
      ↔ ∀ earlier ∈ places,
          earlier < place → ¬ EqualAt (values ++ [value]) earlier place := by
  rw [h.kept_iff place bound]
  exact forall₃_congr fun earlier member _ =>
    not_congr (equalAt_append (h.inside earlier member) bound).symm

/-- A value that a kept one is loosely equal to is not kept. -/
theorem KeptPlaces.concat_repeated (h : KeptPlaces values places) {earlier : Nat}
    (kept : earlier ∈ places) (equal : EqualAt (values ++ [value]) earlier values.length)
    : KeptPlaces (values ++ [value]) places := by
  refine ⟨h.increasing, fun place member => ?_, fun place bound => ?_⟩
  · exact (h.inside place member).trans (by simp)
  · rw [List.length_append, List.length_singleton, Nat.lt_succ_iff_lt_or_eq] at bound
    obtain bound | rfl := bound
    · exact h.kept_iff_append bound
    · refine iff_of_false (fun member => Nat.lt_irrefl _ (h.inside _ member)) fun separate => ?_
      exact separate earlier kept (h.inside earlier kept) equal

/-- A value that no kept one is loosely equal to is kept. -/
theorem KeptPlaces.concat_fresh (h : KeptPlaces values places)
    (fresh : ∀ earlier ∈ places, ¬ EqualAt (values ++ [value]) earlier values.length)
    : KeptPlaces (values ++ [value]) (places ++ [values.length]) := by
  have last (place : Nat)
      : place ∈ places ++ [values.length] ↔ place ∈ places ∨ place = values.length := by
    simp
  refine ⟨?_, fun place member => ?_, fun place bound => ?_⟩
  · rw [List.sortedLT_iff_pairwise, List.pairwise_append]
    refine ⟨h.increasing.pairwise, List.pairwise_singleton _ _, fun place member other last => ?_⟩
    obtain rfl := List.mem_singleton.mp last
    exact h.inside place member
  · rw [List.length_append, List.length_singleton, Nat.lt_succ_iff]
    obtain member | rfl := (last place).mp member
    · exact (h.inside place member).le
    · exact Nat.le_refl _
  · rw [List.length_append, List.length_singleton, Nat.lt_succ_iff_lt_or_eq] at bound
    obtain bound | rfl := bound
    · rw [last, or_iff_left bound.ne, h.kept_iff_append bound]
      refine forall_congr' fun earlier =>
        ⟨fun separate member before => ?_, fun separate member => ?_⟩
      · obtain member | rfl := (last earlier).mp member
        · exact separate member before
        · exact absurd before (Nat.lt_asymm bound)
      · exact separate ((last earlier).mpr (.inl member))
    · refine iff_of_true ((last _).mpr (.inr rfl)) fun earlier member before => ?_
      exact fresh earlier (((last earlier).mp member).resolve_right before.ne)

/-- A value is loosely equal to one of some values where it is so to the value at one of their
places. -/
theorem any_looselyEquals_iff {all kept : List Value} {last : Nat}
    (stand : places.map (all[·]?) = kept.map some) (found : all[last]? = some value)
    : kept.any (·.looselyEquals value) = true ↔ ∃ earlier ∈ places, EqualAt all earlier last := by
  have mem (other : Value) : other ∈ kept ↔ ∃ earlier ∈ places, all[earlier]? = some other := by
    rw [← List.mem_map_of_injective (Option.some_injective Value), ← stand, List.mem_map]
  simp only [List.any_eq_true, mem, EqualAt, found, Option.some_inj]
  constructor
  · rintro ⟨other, ⟨earlier, kept, stands⟩, equal⟩
    exact ⟨earlier, kept, other, value, stands, rfl, equal⟩
  · rintro ⟨earlier, kept, other, _, stands, rfl, equal⟩
    exact ⟨other, ⟨earlier, kept, stands⟩, equal⟩

/-- The kept values are those at the places where values are kept, by induction from the last
value. -/
theorem exists_keptPlaces (values : List Value)
    : ∃ places,
        KeptPlaces values places ∧ places.map (values[·]?) = (distinct values).map some := by
  induction values using List.reverseRecOn with
  | nil => exact ⟨[], ⟨List.Pairwise.nil.sortedLT, nofun, nofun⟩, rfl⟩
  | append_singleton values value ih =>
      obtain ⟨places, h, stand⟩ := ih
      have before : places.map ((values ++ [value])[·]?) = (distinct values).map some := by
        rw [← stand]
        exact List.map_congr_left fun place member =>
          List.getElem?_append_left (h.inside place member)
      have repeated : (distinct values).any (·.looselyEquals value) = true
          ↔ ∃ earlier ∈ places, EqualAt (values ++ [value]) earlier values.length := by
        exact any_looselyEquals_iff before (by simp)
      rw [distinct_concat]
      split
      · next equal =>
        obtain ⟨earlier, kept, equal⟩ := repeated.mp equal
        exact ⟨places, h.concat_repeated kept equal, before⟩
      · next fresh =>
        have separate : ∀ earlier ∈ places, ¬ EqualAt (values ++ [value]) earlier values.length :=
          fun earlier kept equal => fresh (repeated.mpr ⟨earlier, kept, equal⟩)
        refine ⟨_, h.concat_fresh separate, ?_⟩
        rw [List.map_append, before, List.map_append]
        simp

end QuizVariants.Value
